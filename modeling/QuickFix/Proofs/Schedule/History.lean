import QuickFix.Schedule.Machine

/-!
# Histories of runs

`Machine.happenings` says what the next machine step makes happen: jobs are put off and started, pumps
of the queue end, write actions start and end. `Runs M m h n` is a run from the machine `m` to the
machine `n` with the history `h`. What a step can be is said once, by `Next` (`next_of_next?`), and what
it does to the depth, the queue and the stack by `Move` (`move_of_next?`); what runs keep comes from it:

* `Runs.queue_eq`: jobs leave the queue at one end as they come in at the other;
* `Runs.results_eq`: pumps count the jobs that they start;
* `Runs.writes_eq`, `Runs.sound`: the depth is the number of write actions that have not ended;
* `exists_leaves`: a run goes on with what was to do below any of its frames, or a panic does.
-/

namespace QuickFix.Schedule

/-- Something that happens in a run. -/
inductive Happening (α ν : Type) where
  /-- A job is put off. -/
  | queued (j : Job α ν)
  | started (j : Job α ν)
  /-- A pump of the queue ends, and so many jobs ran in it. -/
  | pumped (ran : Nat)
  | writeStarted
  | writeEnded

namespace Happening

variable {α ν : Type}

/-- The jobs that are put off, in order. -/
def queuedJobs (h : List (Happening α ν)) : List (Job α ν) :=
  h.filterMap fun
    | .queued j => some j
    | _ => none

/-- The jobs that start, in order. -/
def startedJobs (h : List (Happening α ν)) : List (Job α ν) :=
  h.filterMap fun
    | .started j => some j
    | _ => none

/-- The results of the pumps, in order. -/
def pumpResults (h : List (Happening α ν)) : List Nat :=
  h.filterMap fun
    | .pumped ran => some ran
    | _ => none

/-- Number of write actions that start. -/
def writesStarted (h : List (Happening α ν)) : Nat :=
  h.countP fun
    | .writeStarted => true
    | _ => false

/-- Number of write actions that end. -/
def writesEnded (h : List (Happening α ν)) : Nat :=
  h.countP fun
    | .writeEnded => true
    | _ => false

@[simp] theorem queuedJobs_append (h h' : List (Happening α ν)) :
    queuedJobs (h ++ h') = queuedJobs h ++ queuedJobs h' := List.filterMap_append

@[simp] theorem startedJobs_append (h h' : List (Happening α ν)) :
    startedJobs (h ++ h') = startedJobs h ++ startedJobs h' := List.filterMap_append

@[simp] theorem pumpResults_append (h h' : List (Happening α ν)) :
    pumpResults (h ++ h') = pumpResults h ++ pumpResults h' := List.filterMap_append

@[simp] theorem writesStarted_append (h h' : List (Happening α ν)) :
    writesStarted (h ++ h') = writesStarted h + writesStarted h' := List.countP_append

@[simp] theorem writesEnded_append (h h' : List (Happening α ν)) :
    writesEnded (h ++ h') = writesEnded h + writesEnded h' := List.countP_append

end Happening

open Happening

namespace Machine

variable {α σ β ν : Type}

/-! ## What a step makes happen -/

/-- Number of write actions that a panic ends. -/
def endedByPanic : List (Frame α) → Nat
  | [] => 0
  | .steps _ :: k => endedByPanic k
  | .endWrite true _ :: _ => 1
  | .endWrite false _ :: k => endedByPanic k + 1
  | .pumping _ :: _ => 0

/-- What happens when a step of a program is done, with `k` to do after it. -/
def happeningsOf (M : Meaning α σ β ν) (m : Machine α σ β ν) (s : Step α) (k : List (Frame α)) :
    List (Happening α ν) :=
  match s with
  | .act a =>
    let r := M.act a m.view m.world
    let panics := match r.answer with
      | .ok _ => 0
      | .error _ => endedByPanic k
    (r.notice?.map Job.notice).toList.map .queued ++ List.replicate panics .writeEnded
  | .later job => [.queued (.program job)]
  | .writing _ _ => [.writeStarted]
  | .pump => if 0 < m.depth then [.pumped 0] else []
  | .panic _ => List.replicate (endedByPanic k) .writeEnded

/-- What the next machine step makes happen. -/
def happenings (M : Meaning α σ β ν) (m : Machine α σ β ν) : List (Happening α ν) :=
  match m.stack with
  | [] => []
  | .steps [] :: _ => []
  | .steps (s :: ss) :: k => m.happeningsOf M s (.steps ss :: k)
  | .endWrite _ _ :: _ => [.writeEnded]
  | .pumping ran :: _ =>
    match m.queue with
    | [] => [.pumped ran]
    | j :: _ => [.started j]

/-- A run of some machine steps, with what happens in it. -/
inductive Runs (M : Meaning α σ β ν) :
    Machine α σ β ν → List (Happening α ν) → Machine α σ β ν → Prop
  | refl (m : Machine α σ β ν) : Runs M m [] m
  | step {m m₁ n : Machine α σ β ν} {h : List (Happening α ν)} (hm : m.next? M = some m₁)
    (hn : Runs M m₁ h n) : Runs M m (m.happenings M ++ h) n

namespace Runs

variable {M : Meaning α σ β ν} {m n l : Machine α σ β ν} {h h' : List (Happening α ν)}

theorem trans (hm : Runs M m h n) (hn : Runs M n h' l) : Runs M m (h ++ h') l := by
  induction hm with
  | refl => exact hn
  | step hs _ ih =>
    rw [List.append_assoc]
    exact .step hs (ih hn)

theorem one (hm : m.next? M = some n) : Runs M m (m.happenings M) n := by
  have := Runs.step hm (.refl n)
  rwa [List.append_nil] at this

end Runs

/-- A run ends where nothing is left to do. -/
theorem exists_runs_run (M : Meaning α σ β ν) (m : Machine α σ β ν) :
    ∃ h, Runs M m h (m.run M) ∧ (m.run M).next? M = none := by
  fun_induction run M m with
  | case1 m hm => exact ⟨[], .refl m, hm⟩
  | case2 m m' hm ih =>
    obtain ⟨h, hr, hn⟩ := ih
    exact ⟨_, .step hm hr, hn⟩

/-! ## What a step can do -/

/-- What is counted of a machine: the depth, the queue and what is still to do. -/
structure Core (α ν : Type) where
  depth : Nat
  queue : List (Job α ν)
  stack : List (Frame α)

def core (m : Machine α σ β ν) : Core α ν := ⟨m.depth, m.queue, m.stack⟩

@[simp] theorem core_note (e : Entry β) (m : Machine α σ β ν) : (m.note e).core = m.core := rfl

@[simp] theorem core_noteEvents (es : List Log.Event) (m : Machine α σ β ν) :
    (m.noteEvents es).core = m.core := by
  induction es generalizing m with
  | nil => rfl
  | cons e es ih => exact ih (m.note (.logged e))

theorem core_eq_iff {m : Machine α σ β ν} {d : Nat} {q : List (Job α ν)} {k : List (Frame α)} :
    m.core = ⟨d, q, k⟩ ↔ m.depth = d ∧ m.queue = q ∧ m.stack = k := by
  simp only [core, Core.mk.injEq]

/-- What the next step of a machine is. -/
inductive Next (M : Meaning α σ β ν) (m n : Machine α σ β ν) : Prop
  | finished {k : List (Frame α)} (hs : m.stack = .steps [] :: k) (hn : n = { m with stack := k })
  | performed {s : Step α} {ss : Program α} {k : List (Frame α)}
    (hs : m.stack = .steps (s :: ss) :: k) (hn : n = m.perform M s (.steps ss :: k))
  | writeEnded {c : Bool} {count : Nat} {k : List (Frame α)} (hs : m.stack = .endWrite c count :: k)
    (hn : n = ({ m with stack := k, depth := m.depth - 1 }.note (.writeEnded count)))
  | pumpEnded {ran : Nat} {k : List (Frame α)} (hs : m.stack = .pumping ran :: k)
    (hq : m.queue = []) (hn : n = ({ m with stack := k }.note (.pumped ran)))
  | started {ran : Nat} {j : Job α ν} {js : List (Job α ν)} {k : List (Frame α)}
    (hs : m.stack = .pumping ran :: k) (hq : m.queue = j :: js)
    (hn : n = ({ m with queue := js }.start M j (.pumping (ran + 1) :: k)))

theorem next_of_next? {M : Meaning α σ β ν} {m n : Machine α σ β ν} (h : m.next? M = some n) :
    Next M m n := by
  unfold next? at h
  split at h
  · cases h
  · rename_i hs
    exact .finished hs (Option.some.inj h).symm
  · rename_i hs
    exact .performed hs (Option.some.inj h).symm
  · rename_i hs
    exact .writeEnded hs (Option.some.inj h).symm
  · rename_i hs
    split at h
    · rename_i hq
      exact .pumpEnded hs hq (Option.some.inj h).symm
    · rename_i hq
      exact .started hs hq (Option.some.inj h).symm

/-- What is to do first when a job starts. -/
def frames : Job α ν → List (Frame α)
  | .program p => [.steps p]
  | .notice _ => []

theorem core_start (M : Meaning α σ β ν) (j : Job α ν) (k : List (Frame α))
    (m : Machine α σ β ν) : (m.start M j k).core = ⟨m.depth, m.queue, frames j ++ k⟩ := by
  cases j with
  | program p => rfl
  | notice e => exact core_noteEvents ..

/-- The moves of a machine, with what happens in them. -/
inductive Move (m : Machine α σ β ν) : List (Happening α ν) → Machine α σ β ν → Prop
  | finished {k : List (Frame α)} {n : Machine α σ β ν} (hs : m.stack = .steps [] :: k)
    (hn : n.core = ⟨m.depth, m.queue, k⟩) : Move m [] n
  | went {s : Step α} {ss : Program α} {k : List (Frame α)} (js : List (Job α ν))
    {n : Machine α σ β ν} (hs : m.stack = .steps (s :: ss) :: k)
    (hn : n.core = ⟨m.depth, m.queue ++ js, .steps ss :: k⟩) : Move m (js.map .queued) n
  | panicked {s : Step α} {ss : Program α} {k : List (Frame α)} (js : List (Job α ν))
    (p : Payload) (l : Machine α σ β ν) (hs : m.stack = .steps (s :: ss) :: k)
    (hd : l.depth = m.depth) (hq : l.queue = m.queue ++ js) :
    Move m (js.map .queued ++ List.replicate (endedByPanic (.steps ss :: k)) .writeEnded)
      (l.unwind p (.steps ss :: k))
  | writeStarted {c : Bool} {body ss : Program α} {k : List (Frame α)} {n : Machine α σ β ν}
    (hs : m.stack = .steps (.writing c body :: ss) :: k)
    (hn : n.core =
      ⟨m.depth + 1, m.queue, .steps body :: .endWrite c body.length :: .steps ss :: k⟩) :
    Move m [.writeStarted] n
  | refused {ss : Program α} {k : List (Frame α)} {n : Machine α σ β ν}
    (hs : m.stack = .steps (.pump :: ss) :: k) (hd : 0 < m.depth)
    (hn : n.core = ⟨m.depth, m.queue, .steps ss :: k⟩) : Move m [.pumped 0] n
  | pumpStarted {ss : Program α} {k : List (Frame α)} {n : Machine α σ β ν}
    (hs : m.stack = .steps (.pump :: ss) :: k) (hd : m.depth = 0)
    (hn : n.core = ⟨m.depth, m.queue, .pumping 0 :: .steps ss :: k⟩) : Move m [] n
  | writeEnded {c : Bool} {count : Nat} {k : List (Frame α)} {n : Machine α σ β ν}
    (hs : m.stack = .endWrite c count :: k) (hn : n.core = ⟨m.depth - 1, m.queue, k⟩) :
    Move m [.writeEnded] n
  | pumpEnded {ran : Nat} {k : List (Frame α)} {n : Machine α σ β ν}
    (hs : m.stack = .pumping ran :: k) (hq : m.queue = []) (hn : n.core = ⟨m.depth, [], k⟩) :
    Move m [.pumped ran] n
  | started {ran : Nat} {j : Job α ν} {js : List (Job α ν)} {k : List (Frame α)}
    {n : Machine α σ β ν} (hs : m.stack = .pumping ran :: k) (hq : m.queue = j :: js)
    (hn : n.core = ⟨m.depth, js, frames j ++ .pumping (ran + 1) :: k⟩) : Move m [.started j] n

theorem move_perform {M : Meaning α σ β ν} {m : Machine α σ β ν} {s : Step α} {ss : Program α}
    {k : List (Frame α)} (hs : m.stack = .steps (s :: ss) :: k) :
    Move m (m.happeningsOf M s (.steps ss :: k)) (m.perform M s (.steps ss :: k)) := by
  cases s with
  | act a =>
    cases ha : (M.act a m.view m.world).answer with
    | ok b =>
      simp only [happeningsOf, perform, ha, List.replicate_zero, List.append_nil]
      refine .went _ hs ?_
      simp only [core_note, core_noteEvents]
      rfl
    | error p =>
      simp only [happeningsOf, perform, ha]
      refine .panicked _ p _ hs ?_ ?_
      · exact congrArg Core.depth (core_noteEvents ..)
      · exact congrArg Core.queue (core_noteEvents ..)
  | later job => exact .went [.program job] hs rfl
  | writing c body => exact .writeStarted hs rfl
  | pump =>
    by_cases hd : 0 < m.depth
    · simp only [happeningsOf, perform, if_pos hd]
      exact .refused hs hd rfl
    · simp only [happeningsOf, perform, if_neg hd]
      exact .pumpStarted hs (Nat.eq_zero_of_not_pos hd) rfl
  | panic p => exact .panicked [] p m hs rfl (List.append_nil _).symm

/-- **A step is one of the moves.** -/
theorem move_of_next? {M : Meaning α σ β ν} {m n : Machine α σ β ν} (h : m.next? M = some n) :
    Move m (m.happenings M) n := by
  cases next_of_next? h with
  | finished hs hn =>
    simp only [happenings, hs]
    exact .finished hs (by rw [hn]; rfl)
  | performed hs hn =>
    simp only [happenings, hs]
    rw [hn]
    exact move_perform hs
  | writeEnded hs hn =>
    simp only [happenings, hs]
    exact .writeEnded hs (by rw [hn]; rfl)
  | pumpEnded hs hq hn =>
    simp only [happenings, hs, hq]
    exact .pumpEnded hs hq (by rw [hn]; exact core_eq_iff.2 ⟨rfl, hq, rfl⟩)
  | started hs hq hn =>
    simp only [happenings, hs, hq]
    exact .started hs hq (by rw [hn]; exact core_start ..)

/-! ## Panics -/

/-- Number of write actions around what is to do. -/
def openWrites (k : List (Frame α)) : Nat :=
  k.countP fun
    | .endWrite _ _ => true
    | _ => false

/-- Number of jobs that ran in the pumps that have not ended. -/
def ranSoFar (k : List (Frame α)) : Nat :=
  total (fun | .pumping ran => ran | _ => 0) k

theorem openWrites_frames_append (j : Job α ν) (k : List (Frame α)) :
    openWrites (frames j ++ k) = openWrites k := by
  cases j <;> rfl

section

variable (p : Payload) (m : Machine α σ β ν) (k : List (Frame α))

@[simp] theorem queue_unwind : (m.unwind p k).queue = m.queue := by
  fun_induction unwind p m k with
  | case1 | case3 | case5 => rfl
  | case2 _ _ _ ih | case4 _ _ _ ih => exact ih

theorem stack_unwind_suffix : (m.unwind p k).stack <:+ k := by
  fun_induction unwind p m k with
  | case1 => exact List.suffix_rfl
  | case2 _ _ k ih | case4 _ _ k ih => exact ih.trans (List.suffix_cons _ k)
  | case3 _ _ k => exact List.suffix_cons _ k
  | case5 => exact List.suffix_rfl

theorem openWrites_unwind :
    openWrites k = endedByPanic k + openWrites (m.unwind p k).stack := by
  fun_induction unwind p m k with
  | case1 => rfl
  | case2 _ _ _ ih => simpa [openWrites, endedByPanic] using ih
  | case3 => simp [openWrites, endedByPanic, note]; omega
  | case4 _ _ _ ih => simp [openWrites, endedByPanic] at ih ⊢; omega
  | case5 => simp [openWrites, endedByPanic, note]

theorem ranSoFar_unwind : ranSoFar (m.unwind p k).stack = ranSoFar k := by
  fun_induction unwind p m k with
  | case1 | case3 => simp [ranSoFar, total, note]
  | case2 _ _ _ ih | case4 _ _ _ ih => simpa [ranSoFar, total] using ih
  | case5 => rfl

variable {m k}

theorem depth_unwind (h : m.depth = openWrites k) :
    (m.unwind p k).depth = openWrites (m.unwind p k).stack := by
  fun_induction unwind p m k with
  | case1 => exact h
  | case2 _ _ _ ih => exact ih h
  | case3 => simp [openWrites, note] at h ⊢; omega
  | case4 _ _ _ ih => exact ih (by simp [openWrites] at h ⊢; omega)
  | case5 => exact h

end

/-! ## What runs keep -/

/-- The depth is the number of write actions around what is to do, and none is around a pump. -/
structure Sound (m : Machine α σ β ν) : Prop where
  depth_eq : m.depth = openWrites m.stack
  apart {ran : Nat} {k : List (Frame α)} (h : .pumping ran :: k <:+ m.stack) : openWrites k = 0

theorem Sound.depth_of_pumping {m : Machine α σ β ν} (hm : Sound m) {ran : Nat}
    {k : List (Frame α)} (hs : m.stack = .pumping ran :: k) : m.depth = 0 := by
  rw [hm.depth_eq, hs]
  exact hm.apart (k := k) ⟨[], hs.symm⟩

section

variable {M : Meaning α σ β ν} {m n : Machine α σ β ν} {h : List (Happening α ν)}

theorem queuedJobs_queued (js : List (Job α ν)) :
    queuedJobs (js.map .queued : List (Happening α ν)) = js := by
  induction js with
  | nil => rfl
  | cons j js ih => exact congrArg (j :: ·) ih

theorem startedJobs_queued (js : List (Job α ν)) :
    startedJobs (js.map .queued : List (Happening α ν)) = [] := by
  simp [startedJobs, List.filterMap_map]

theorem pumpResults_queued (js : List (Job α ν)) :
    pumpResults (js.map .queued : List (Happening α ν)) = [] := by
  simp [pumpResults, List.filterMap_map]

theorem writes_queued (js : List (Job α ν)) :
    writesStarted (js.map .queued : List (Happening α ν)) = 0 ∧
      writesEnded (js.map .queued : List (Happening α ν)) = 0 := by
  simp [writesStarted, writesEnded, List.countP_map, Function.comp_def]

theorem queuedJobs_ended (k : Nat) :
    queuedJobs (List.replicate k .writeEnded : List (Happening α ν)) = [] := by
  simp [queuedJobs]

theorem startedJobs_ended (k : Nat) :
    startedJobs (List.replicate k .writeEnded : List (Happening α ν)) = [] := by
  simp [startedJobs]

theorem pumpResults_ended (k : Nat) :
    pumpResults (List.replicate k .writeEnded : List (Happening α ν)) = [] := by
  simp [pumpResults]

theorem writes_ended (k : Nat) :
    writesStarted (List.replicate k .writeEnded : List (Happening α ν)) = 0 ∧
      writesEnded (List.replicate k .writeEnded : List (Happening α ν)) = k := by
  simp [writesStarted, writesEnded, List.countP_replicate]

theorem Move.queue_eq (hm : Move m h n) :
    m.queue ++ queuedJobs h = startedJobs h ++ n.queue := by
  cases hm with
  | finished hs hn | writeStarted hs hn | writeEnded hs hn | refused hs hd hn
  | pumpStarted hs hd hn =>
    rw [(core_eq_iff.1 hn).2.1]
    exact List.append_nil _
  | went js hs hn =>
    rw [(core_eq_iff.1 hn).2.1, queuedJobs_queued, startedJobs_queued, List.nil_append]
  | panicked js p l hs hd hq =>
    rw [queue_unwind, hq, queuedJobs_append, startedJobs_append, queuedJobs_queued,
      startedJobs_queued, queuedJobs_ended, startedJobs_ended]
    simp
  | pumpEnded hs hq hn =>
    rw [(core_eq_iff.1 hn).2.1, hq]
    rfl
  | started hs hq hn =>
    rw [(core_eq_iff.1 hn).2.1, hq]
    exact List.append_nil _

theorem Move.results_eq (hm : Move m h n) :
    ranSoFar m.stack + (startedJobs h).length = total id (pumpResults h) + ranSoFar n.stack := by
  cases hm with
  | finished hs hn | writeEnded hs hn | pumpEnded hs hq hn | refused hs hd hn
  | pumpStarted hs hd hn | writeStarted hs hn =>
    rw [hs, (core_eq_iff.1 hn).2.2]
    simp [ranSoFar, total, startedJobs, pumpResults]
  | went js hs hn =>
    rw [hs, (core_eq_iff.1 hn).2.2, startedJobs_queued, pumpResults_queued]
    simp [ranSoFar, total]
  | @panicked s ss k js p l hs hd hq =>
    rw [hs, ranSoFar_unwind, startedJobs_append, pumpResults_append, startedJobs_queued,
      pumpResults_queued, startedJobs_ended, pumpResults_ended]
    simp [ranSoFar, total]
  | @started ran j js k _ hs hq hn =>
    have hj : ranSoFar (frames j) = 0 := by cases j <;> rfl
    rw [hs, (core_eq_iff.1 hn).2.2, ranSoFar, ranSoFar, total_append]
    simp only [total, startedJobs, pumpResults, ranSoFar] at hj ⊢
    simp [total]
    omega

theorem Move.writes_eq (hm : Move m h n) :
    openWrites m.stack + writesStarted h = writesEnded h + openWrites n.stack := by
  cases hm with
  | finished hs hn | pumpEnded hs hq hn | refused hs hd hn | pumpStarted hs hd hn
  | writeStarted hs hn =>
    rw [hs, (core_eq_iff.1 hn).2.2]
    simp [openWrites, writesStarted, writesEnded]
  | @writeEnded c count k _ hs hn =>
    rw [hs, (core_eq_iff.1 hn).2.2]
    simp only [openWrites, List.countP_cons]
    exact Nat.add_comm (openWrites k) 1
  | went js hs hn =>
    rw [hs, (core_eq_iff.1 hn).2.2, (writes_queued js).1, (writes_queued js).2]
    simp [openWrites]
  | @panicked s ss k js p l hs hd hq =>
    have := openWrites_unwind p l (.steps ss :: k)
    rw [hs, writesStarted_append, writesEnded_append, (writes_queued js).1, (writes_queued js).2,
      (writes_ended _).1, (writes_ended _).2]
    simp [openWrites] at this ⊢
    omega
  | @started ran j js k _ hs hq hn =>
    rw [hs, (core_eq_iff.1 hn).2.2, openWrites_frames_append]
    simp [openWrites, writesStarted, writesEnded]

/-- No more write actions end in a step than were open before it. -/
theorem Move.writesEnded_le (hm : Move m h n) : writesEnded h ≤ openWrites m.stack := by
  have heq := hm.writes_eq
  cases hm with
  | finished hs hn | pumpEnded hs hq hn | refused hs hd hn | pumpStarted hs hd hn
  | started hs hq hn | writeStarted hs hn => exact Nat.zero_le _
  | @writeEnded c count k _ hs hn =>
    rw [hs]
    simp [openWrites, writesEnded]
  | went js hs hn =>
    rw [(writes_queued js).2]
    exact Nat.zero_le _
  | panicked js p l hs hd hq =>
    rw [writesStarted_append, (writes_queued js).1, (writes_ended _).1] at heq
    omega

theorem suffix_of_steps {ran : Nat} {k k' : List (Frame α)} {p : Program α}
    (h : .pumping ran :: k' <:+ .steps p :: k) : .pumping ran :: k' <:+ k := by
  obtain heq | h := List.suffix_cons_iff.1 h
  · cases heq
  · exact h

theorem Move.sound (hm : Move m h n) (hs : Sound m) : Sound n := by
  obtain ⟨hdepth, hapart⟩ := hs
  cases hm with
  | finished hs hn | writeEnded hs hn | pumpEnded hs hq hn =>
    obtain ⟨hd, -, hk⟩ := core_eq_iff.1 hn
    rw [hs] at hdepth hapart
    constructor
    · rw [hd, hk, hdepth]
      simp [openWrites]
    · intro ran k' h
      rw [hk] at h
      exact hapart (h.trans (List.suffix_cons ..))
  | went js hs hn | refused hs hd' hn =>
    obtain ⟨hd, -, hk⟩ := core_eq_iff.1 hn
    rw [hs] at hdepth hapart
    constructor
    · rw [hd, hk, hdepth]
      simp [openWrites]
    · intro ran k' h
      rw [hk] at h
      exact hapart ((suffix_of_steps h).trans (List.suffix_cons ..))
  | @panicked s ss k js p l hs hd hq =>
    rw [hs] at hdepth hapart
    constructor
    · refine depth_unwind p (hd.trans (hdepth.trans ?_))
      simp [openWrites]
    · intro ran k' h
      exact hapart ((suffix_of_steps (h.trans (stack_unwind_suffix ..))).trans
        (List.suffix_cons ..))
  | @writeStarted c body ss k _ hs hn =>
    obtain ⟨hd, -, hk⟩ := core_eq_iff.1 hn
    rw [hs] at hdepth hapart
    constructor
    · rw [hd, hk, hdepth]
      simp [openWrites]
    · intro ran k' h
      rw [hk] at h
      obtain heq | h := List.suffix_cons_iff.1 (suffix_of_steps h)
      · cases heq
      · exact hapart ((suffix_of_steps h).trans (List.suffix_cons ..))
  | @pumpStarted ss k _ hs hd' hn =>
    obtain ⟨hd, -, hk⟩ := core_eq_iff.1 hn
    rw [hs] at hdepth hapart
    constructor
    · rw [hd, hk, hdepth]
      simp [openWrites]
    · intro ran k' h
      rw [hk] at h
      obtain heq | h := List.suffix_cons_iff.1 h
      · -- The new pump starts only where no write action is open.
        cases heq
        have := hdepth.symm.trans hd'
        simpa [openWrites] using this
      · exact hapart ((suffix_of_steps h).trans (List.suffix_cons ..))
  | @started ran j js k _ hs hq hn =>
    obtain ⟨hd, -, hk⟩ := core_eq_iff.1 hn
    rw [hs] at hdepth hapart
    constructor
    · rw [hd, hk, hdepth, openWrites_frames_append]
      simp [openWrites]
    · intro ran' k' h
      rw [hk] at h
      have h : .pumping ran' :: k' <:+ .pumping (ran + 1) :: k := by
        cases j with
        | program p => exact suffix_of_steps h
        | notice e => exact h
      obtain heq | h := List.suffix_cons_iff.1 h
      · cases heq
        exact hapart List.suffix_rfl
      · exact hapart (h.trans (List.suffix_cons ..))

namespace Runs

/-- **Jobs start in the order in which they were put off.** -/
theorem queue_eq (hr : Runs M m h n) : m.queue ++ queuedJobs h = startedJobs h ++ n.queue := by
  induction hr with
  | refl m => exact List.append_nil _
  | @step m m₁ n h hm hn ih =>
    rw [queuedJobs_append, startedJobs_append, ← List.append_assoc, (move_of_next? hm).queue_eq,
      List.append_assoc, ih, List.append_assoc]

theorem results_eq (hr : Runs M m h n) :
    ranSoFar m.stack + (startedJobs h).length = total id (pumpResults h) + ranSoFar n.stack := by
  induction hr with
  | refl m => simp [startedJobs, pumpResults, total]
  | step hm hn ih =>
    have := (move_of_next? hm).results_eq
    simp only [startedJobs_append, pumpResults_append, List.length_append, total_append]
    omega

theorem writes_eq (hr : Runs M m h n) :
    openWrites m.stack + writesStarted h = writesEnded h + openWrites n.stack := by
  induction hr with
  | refl m => simp [writesStarted, writesEnded]
  | step hm hn ih =>
    have := (move_of_next? hm).writes_eq
    simp only [writesStarted_append, writesEnded_append]
    omega

theorem sound (hr : Runs M m h n) (hs : Sound m) : Sound n := by
  induction hr with
  | refl => exact hs
  | step hm hn ih => exact ih ((move_of_next? hm).sound hs)

/-- At no point of a run have more write actions ended than were open or started. -/
theorem writesEnded_le (hr : Runs M m h n) {h' : List (Happening α ν)} (hp : h' <+: h) :
    writesEnded h' ≤ openWrites m.stack + writesStarted h' := by
  induction hr generalizing h' with
  | refl m =>
    rw [List.prefix_nil.1 hp]
    exact Nat.zero_le _
  | @step m m₁ n h hm hn ih =>
    obtain hp' | ⟨t, rfl⟩ := List.prefix_or_prefix_of_prefix hp (List.prefix_append _ h)
    · have := hp'.sublist.countP_le (p := fun | .writeEnded => true | _ => false)
      have := (move_of_next? hm).writesEnded_le
      simp only [writesEnded] at *
      omega
    · have := ih ((List.prefix_append_right_inj _).1 hp)
      have := (move_of_next? hm).writes_eq
      simp only [writesStarted_append, writesEnded_append]
      omega

end Runs

theorem sound_load (w : σ) (q : List (Job α ν)) (p : Program α) :
    Sound (load w q p : Machine α σ β ν) := by
  constructor
  · rfl
  · intro ran k h
    have := suffix_of_steps h
    simp at this

end

/-! ## What the record has of it -/

/-- The results of pumps in a record, the latest first. -/
def recordedResults (es : List (Entry β)) : List Nat :=
  es.filterMap fun
    | .pumped ran => some ran
    | _ => none

section

variable {M : Meaning α σ β ν} {m n : Machine α σ β ν} {h : List (Happening α ν)}

@[simp] theorem recordedResults_noteEvents (es : List Log.Event) (m : Machine α σ β ν) :
    recordedResults (m.noteEvents es).record = recordedResults m.record := by
  induction es generalizing m with
  | nil => rfl
  | cons e es ih => exact ih (m.note (.logged e))

@[simp] theorem recordedResults_unwind (p : Payload) (m : Machine α σ β ν) (k : List (Frame α)) :
    recordedResults (m.unwind p k).record = recordedResults m.record := by
  fun_induction unwind p m k with
  | case1 | case3 | case5 => rfl
  | case2 _ _ _ ih | case4 _ _ _ ih => exact ih

theorem recordedResults_perform (s : Step α) (k : List (Frame α)) :
    recordedResults (m.perform M s k).record =
      (pumpResults (m.happeningsOf M s k)).reverse ++ recordedResults m.record := by
  cases s with
  | act a =>
    have hq : pumpResults (((M.act a m.view m.world).notice?.map Job.notice).toList.map .queued ++
        List.replicate (endedByPanic k) .writeEnded : List (Happening α ν)) = [] := by
      rw [pumpResults_append, pumpResults_queued, pumpResults_ended, List.nil_append]
    cases ha : (M.act a m.view m.world).answer with
    | ok b =>
      simp only [happeningsOf, perform, ha, List.replicate_zero, List.append_nil,
        pumpResults_queued]
      exact recordedResults_noteEvents ..
    | error p =>
      simp only [happeningsOf, perform, ha, hq, recordedResults_unwind]
      exact recordedResults_noteEvents ..
  | later job => rfl
  | writing c body => rfl
  | pump =>
    by_cases hd : 0 < m.depth
    · simp only [happeningsOf, perform, if_pos hd]
      rfl
    · simp only [happeningsOf, perform, if_neg hd]
      rfl
  | panic p =>
    simp only [happeningsOf, perform, recordedResults_unwind, pumpResults_ended]
    rfl

theorem recordedResults_next? (hm : m.next? M = some n) :
    recordedResults n.record =
      (pumpResults (m.happenings M)).reverse ++ recordedResults m.record := by
  cases next_of_next? hm with
  | finished hs hn | writeEnded hs hn =>
    simp only [happenings, hs, hn]
    rfl
  | performed hs hn =>
    simp only [happenings, hs, hn]
    exact recordedResults_perform _ _
  | pumpEnded hs hq hn =>
    simp only [happenings, hs, hq, hn]
    rfl
  | @started _ j _ _ hs hq hn =>
    simp only [happenings, hs, hq, hn]
    cases j with
    | program p => rfl
    | notice e => exact recordedResults_noteEvents ..

/-- The results of pumps are what the record has. -/
theorem Runs.recordedResults_eq (hr : Runs M m h n) :
    recordedResults n.record = (pumpResults h).reverse ++ recordedResults m.record := by
  induction hr with
  | refl m => rfl
  | step hm hn ih =>
    rw [ih, recordedResults_next? hm, pumpResults_append, List.reverse_append, List.append_assoc]

end

/-! ## What a run comes to below a frame -/

section

variable {M : Meaning α σ β ν} {m n : Machine α σ β ν} {h : List (Happening α ν)}
  {k fs : List (Frame α)}

theorem exists_next? (hm : m.stack ≠ []) : ∃ n, m.next? M = some n := by
  rw [← Option.isSome_iff_exists]
  match hs : m.stack with
  | [] => exact absurd hs hm
  | .steps [] :: _ | .steps (_ :: _) :: _ | .endWrite _ _ :: _ => simp only [next?, hs, Option.isSome]
  | .pumping _ :: _ =>
    match hq : m.queue with
    | [] | _ :: _ => simp only [next?, hs, hq, Option.isSome]

/-- A panic ends within the upper frames, or it ends their write actions and goes on below them. -/
theorem unwind_append (p : Payload) (m : Machine α σ β ν) (fs k : List (Frame α)) :
    (∃ gs, (m.unwind p (fs ++ k)).stack = gs ++ k) ∨
      m.unwind p (fs ++ k) = { m with depth := m.depth - openWrites fs }.unwind p k := by
  fun_induction unwind p m fs with
  | case1 => exact .inr rfl
  | case2 m p k ih => simpa [unwind, openWrites] using ih
  | case3 m c k => exact .inl ⟨k, rfl⟩
  | case4 m c k ih => simpa [unwind, openWrites, Nat.sub_sub, Nat.add_comm 1] using ih
  | case5 m ran fs => exact .inl ⟨.pumping ran :: fs, rfl⟩

/-- What lies below the top frame stays below, unless a panic comes out of what lies above it. -/
theorem Move.above (hm : Move m h n) (hs : m.stack = fs ++ k) (hf : fs ≠ []) :
    (∃ gs, n.stack = gs ++ k) ∨
      ∃ p, ∃ l : Machine α σ β ν, n = l.unwind p k ∧ l.depth = m.depth - openWrites fs := by
  obtain ⟨f, fs, rfl⟩ := List.exists_cons_of_ne_nil hf
  cases hm with
  | finished hs' hn | writeEnded hs' hn | pumpEnded hs' hq hn =>
    obtain ⟨-, rfl⟩ := List.cons.inj (hs'.symm.trans hs)
    exact .inl ⟨fs, (core_eq_iff.1 hn).2.2⟩
  | @went s ss k js _ hs' hn | @refused ss k _ hs' hd hn =>
    obtain ⟨-, rfl⟩ := List.cons.inj (hs'.symm.trans hs)
    exact .inl ⟨.steps ss :: fs, (core_eq_iff.1 hn).2.2⟩
  | @writeStarted c body ss k _ hs' hn =>
    obtain ⟨-, rfl⟩ := List.cons.inj (hs'.symm.trans hs)
    exact .inl ⟨.steps body :: .endWrite c body.length :: .steps ss :: fs, (core_eq_iff.1 hn).2.2⟩
  | @pumpStarted ss k _ hs' hd hn =>
    obtain ⟨-, rfl⟩ := List.cons.inj (hs'.symm.trans hs)
    exact .inl ⟨.pumping 0 :: .steps ss :: fs, (core_eq_iff.1 hn).2.2⟩
  | @started ran j js k _ hs' hq hn =>
    obtain ⟨-, rfl⟩ := List.cons.inj (hs'.symm.trans hs)
    refine .inl ⟨frames j ++ .pumping (ran + 1) :: fs, ?_⟩
    rw [(core_eq_iff.1 hn).2.2, List.append_assoc]
    rfl
  | @panicked s ss k js p l hs' hd hq =>
    obtain ⟨rfl, rfl⟩ := List.cons.inj (hs'.symm.trans hs)
    refine (unwind_append p l (.steps ss :: fs) _).imp id fun heq => ⟨p, _, heq, ?_⟩
    simp only [hd, openWrites, List.countP_cons]

/-- **A run goes on with what lies below, or a panic does.** -/
theorem exists_leaves (hs : m.stack = fs ++ k) (hm : Sound m) :
    ∃ h n, Runs M m h n ∧ (n.stack = k ∨
      fs ≠ [] ∧ ∃ p, ∃ l : Machine α σ β ν, n = l.unwind p k ∧ l.depth = openWrites k) := by
  induction hw : m.weight using Nat.strongRecOn generalizing m fs with
  | _ w ih =>
    by_cases hf : fs = []
    · subst hf
      exact ⟨[], m, .refl m, .inl hs⟩
    · obtain ⟨m₁, hm₁⟩ := exists_next? (M := M) (m := m) (by simp [hs, hf])
      have hmove := move_of_next? hm₁
      obtain ⟨gs, hgs⟩ | ⟨p, l, hl, hd⟩ := hmove.above hs hf
      · obtain ⟨h, n, hr, hn⟩ := ih _ (hw ▸ weight_next?_lt hm₁) hgs (hmove.sound hm) rfl
        exact ⟨_, n, .step hm₁ hr, hn.imp_right fun h => ⟨hf, h.2⟩⟩
      · refine ⟨_, m₁, .one hm₁, .inr ⟨hf, p, l, hl, ?_⟩⟩
        rw [hd, hm.depth_eq, hs, openWrites, List.countP_append]
        exact Nat.add_sub_cancel_left ..

/-- A pump of the queue ends with nothing left in the queue, and a panic does not come out of it. -/
theorem exists_pump_end {ran : Nat} (hs : m.stack = fs ++ .pumping ran :: k) :
    ∃ h r n, Runs M m (h ++ [.pumped r]) n ∧ n.stack = k ∧ n.queue = [] := by
  induction hw : m.weight using Nat.strongRecOn generalizing m fs ran with
  | _ w ih =>
    obtain ⟨m₁, hm₁⟩ := exists_next? (M := M) (m := m) (by simp [hs])
    obtain ⟨h₁, hr₁, hmove⟩ : ∃ h₁, Runs M m h₁ m₁ ∧ Move m h₁ m₁ :=
      ⟨_, .one hm₁, move_of_next? hm₁⟩
    have go {gs : List (Frame α)} {ran' : Nat} (hgs : m₁.stack = gs ++ .pumping ran' :: k) :
        ∃ h r n, Runs M m (h ++ [.pumped r]) n ∧ n.stack = k ∧ n.queue = [] := by
      obtain ⟨h, r, n, hr, hn⟩ := ih _ (hw ▸ weight_next?_lt hm₁) hgs rfl
      refine ⟨h₁ ++ h, r, n, ?_, hn⟩
      rw [List.append_assoc]
      exact hr₁.trans hr
    by_cases hf : fs = []
    · subst hf
      cases hmove with
      | pumpEnded hs' hq hn =>
        obtain ⟨-, rfl⟩ := List.cons.inj (hs'.symm.trans hs)
        exact ⟨[], _, m₁, hr₁, (core_eq_iff.1 hn).2.2, (core_eq_iff.1 hn).2.1⟩
      | started hs' hq hn =>
        obtain ⟨-, rfl⟩ := List.cons.inj (hs'.symm.trans hs)
        exact go (core_eq_iff.1 hn).2.2
      | finished hs' | went _ hs' | panicked _ _ _ hs' | writeStarted hs' | refused hs'
      | pumpStarted hs' | writeEnded hs' => cases hs'.symm.trans hs
    · obtain ⟨gs, hgs⟩ | ⟨p, l, hl, -⟩ := hmove.above hs hf
      · exact go hgs
      · exact go (show m₁.stack = [] ++ .pumping ran :: k by rw [hl]; rfl)

end

end Machine

end QuickFix.Schedule
