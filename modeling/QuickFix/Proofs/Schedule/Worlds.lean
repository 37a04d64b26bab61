import QuickFix.Proofs.Schedule.History

/-!
# The world of a run

A machine step changes the world only by an action or by a notice that is shown (`Turn`), so what all
of these keep, a run keeps (`Runs.keeps`). The actions of a run are those of its programs
(`Machine.All`); a job that a program puts off counts to it.
-/

namespace QuickFix.Schedule

/-! ## The actions of programs -/

mutual

/-- All actions of a step satisfy `P`. -/
def Step.All {α : Type} (P : α → Prop) : Step α → Prop
  | .act a => P a
  | .later job => Program.All P job
  | .writing _ body => Program.All P body
  | .pump => True
  | .panic _ => True

/-- All actions of a program satisfy `P`. -/
def Program.All {α : Type} (P : α → Prop) : List (Step α) → Prop
  | [] => True
  | s :: ss => s.All P ∧ Program.All P ss

end

variable {α σ β ν : Type}

def Frame.All (P : α → Prop) : Frame α → Prop
  | .steps p => Program.All P p
  | .endWrite _ _ => True
  | .pumping _ => True

def Job.All (P : α → Prop) : Job α ν → Prop
  | .program p => Program.All P p
  | .notice _ => True

/-- The notices among jobs, in order. -/
def notices (q : List (Job α ν)) : List ν :=
  q.filterMap fun
    | .program _ => none
    | .notice n => some n

@[simp] theorem notices_append (q q' : List (Job α ν)) :
    notices (q ++ q') = notices q ++ notices q' := List.filterMap_append

@[simp] theorem notices_notice (n : ν) (q : List (Job α ν)) :
    notices (.notice n :: q) = n :: notices q := rfl

theorem notices_toList (n? : Option ν) :
    notices ((n?.map Job.notice).toList : List (Job α ν)) = n?.toList := by
  cases n? <;> rfl

namespace Machine

variable {M : Meaning α σ β ν} {m n : Machine α σ β ν} {P : α → Prop}

/-- All actions that are still to do satisfy `P`. -/
structure All (P : α → Prop) (m : Machine α σ β ν) : Prop where
  stack {f : Frame α} (hf : f ∈ m.stack) : f.All P
  queue {j : Job α ν} (hj : j ∈ m.queue) : j.All P

/-! ## What a step does to the world -/

@[simp] theorem world_note (e : Entry β) (m : Machine α σ β ν) : (m.note e).world = m.world := rfl

@[simp] theorem world_noteEvents (es : List Log.Event) (m : Machine α σ β ν) :
    (m.noteEvents es).world = m.world := by
  induction es generalizing m with
  | nil => rfl
  | cons e es ih => exact ih (m.note (.logged e))

@[simp] theorem stack_noteEvents (es : List Log.Event) (m : Machine α σ β ν) :
    (m.noteEvents es).stack = m.stack := congrArg Core.stack (core_noteEvents es m)

@[simp] theorem world_unwind (p : Payload) (m : Machine α σ β ν) (k : List (Frame α)) :
    (m.unwind p k).world = m.world := by
  fun_induction unwind p m k with
  | case1 | case3 | case5 => rfl
  | case2 _ _ _ ih | case4 _ _ _ ih => exact ih

/-- What a step does to the world and to the notices that are put off. -/
inductive Turn (M : Meaning α σ β ν) (m n : Machine α σ β ν) : Prop
  | silent (hw : n.world = m.world) (hn : notices n.queue = notices m.queue)
    (hs : ∀ a ss k, m.stack ≠ .steps (.act a :: ss) :: k)
  | acted {a : α} {ss : Program α} {k : List (Frame α)} (hs : m.stack = .steps (.act a :: ss) :: k)
    (hw : n.world = (M.act a m.view m.world).world)
    (hn : notices n.queue = notices m.queue ++ (M.act a m.view m.world).notice?.toList)
  | noticed {ran : Nat} {e : ν} {js : List (Job α ν)} {k : List (Frame α)}
    (hs : m.stack = .pumping ran :: k) (hq : m.queue = .notice e :: js)
    (hw : n.world = (M.notify e ⟨m.depth, js.length⟩ m.world).1) (hn : n.queue = js)

theorem turn_perform {s : Step α} {ss : Program α} {k : List (Frame α)}
    (hs : m.stack = .steps (s :: ss) :: k) : Turn M m (m.perform M s (.steps ss :: k)) := by
  cases s with
  | act a =>
    refine .acted hs ?_ ?_
    · simp only [perform]
      split <;> simp
    · simp only [perform]
      split <;> simp [note, notices_toList]
  | later job => exact .silent rfl (by simp [perform, note, notices]) (by simp [hs])
  | writing c body => exact .silent rfl rfl (by simp [hs])
  | pump =>
    simp only [perform]
    split <;> exact .silent rfl rfl (by simp [hs])
  | panic p => exact .silent (by simp [perform]) (by simp [perform]) (by simp [hs])

/-- **A step turns the world by an action, by a notice, or not at all.** -/
theorem turn_of_next? (h : m.next? M = some n) : Turn M m n := by
  cases next_of_next? h with
  | finished hs hn | writeEnded hs hn =>
    rw [hn]
    exact .silent rfl rfl (by simp [hs])
  | performed hs hn =>
    rw [hn]
    exact turn_perform hs
  | pumpEnded hs hq hn =>
    rw [hn]
    exact .silent rfl rfl (by simp [hs])
  | @started _ j _ _ hs hq hn =>
    rw [hn]
    cases j with
    | program p => exact .silent rfl (by rw [hq]; rfl) (by simp [hs])
    | notice e => exact .noticed hs hq (by simp [start, view]) (by simp [start])

/-! ## What a run keeps -/

theorem All.unwind {l : Machine α σ β ν} {p : Payload} {k : List (Frame α)}
    (hk : ∀ f ∈ k, f.All P) (hq : ∀ j ∈ l.queue, j.All P) : (l.unwind p k).All P where
  stack hf := hk _ ((stack_unwind_suffix p l k).subset hf)
  queue hj := hq _ (queue_unwind p l k ▸ hj)

theorem All.perform {s : Step α} {k : List (Frame α)} (hs : s.All P) (hk : ∀ f ∈ k, f.All P)
    (hq : ∀ j ∈ m.queue, j.All P) : (m.perform M s k).All P := by
  cases s with
  | act a =>
    have hjobs : ∀ j ∈ m.queue ++ ((M.act a m.view m.world).notice?.map Job.notice).toList,
        j.All P := by
      refine List.forall_mem_append.2 ⟨hq, fun j hj => ?_⟩
      obtain ⟨e, -, rfl⟩ := Option.map_eq_some_iff.1 (Option.mem_toList.1 hj)
      trivial
    simp only [Machine.perform]
    split
    · exact ⟨fun hf => hk _ (by simpa [note] using hf), fun hj => hjobs _ (by simpa [note] using hj)⟩
    · exact All.unwind hk (by simpa only [queue_noteEvents] using hjobs)
  | later job =>
    refine ⟨fun hf => hk _ hf, fun hj => ?_⟩
    rcases List.mem_append.1 hj with hj | hj
    · exact hq _ hj
    · rw [List.mem_singleton.1 hj]
      exact hs
  | writing c body =>
    refine ⟨fun hf => ?_, fun hj => hq _ hj⟩
    rcases List.mem_cons.1 hf with rfl | hf
    · exact hs
    · rcases List.mem_cons.1 hf with rfl | hf
      · trivial
      · exact hk _ hf
  | pump =>
    simp only [Machine.perform]
    split
    · exact ⟨fun hf => hk _ hf, fun hj => hq _ hj⟩
    · refine ⟨fun hf => ?_, fun hj => hq _ hj⟩
      rcases List.mem_cons.1 hf with rfl | hf
      · trivial
      · exact hk _ hf
  | panic p => exact All.unwind hk hq

theorem All.start {j : Job α ν} {k : List (Frame α)} (hj : j.All P) (hk : ∀ f ∈ k, f.All P)
    (hq : ∀ i ∈ m.queue, i.All P) : (m.start M j k).All P := by
  cases j with
  | program p =>
    have hp : Frame.All P (.steps p) := hj
    exact ⟨fun hf => List.forall_mem_cons.2 ⟨hp, hk⟩ _ hf, fun hi => hq _ hi⟩
  | notice e =>
    exact ⟨fun hf => hk _ (by simpa [Machine.start] using hf),
      fun hi => hq _ (by simpa [Machine.start] using hi)⟩

/-- The actions that are to do after a step were to do before it. -/
theorem All.next (hm : m.All P) (h : m.next? M = some n) : n.All P := by
  -- What is to do after a step are frames below the top, jobs, and parts of what was begun.
  have hqueue : ∀ j ∈ m.queue, j.All P := fun _ => hm.queue
  have below {f : Frame α} {k : List (Frame α)} (hs : m.stack = f :: k) :
      f.All P ∧ ∀ f ∈ k, f.All P := List.forall_mem_cons.1 fun _ hf => hm.stack (hs ▸ hf)
  cases next_of_next? h with
  | finished hs hn | writeEnded hs hn | pumpEnded hs _ hn =>
    rw [hn]
    exact ⟨fun hf => (below hs).2 _ hf, fun hj => hqueue _ hj⟩
  | @performed s ss k hs hn =>
    rw [hn]
    obtain ⟨hstep, hrest⟩ : s.All P ∧ Program.All P ss := by
      simpa only [Frame.All, Program.All] using (below hs).1
    exact All.perform hstep (List.forall_mem_cons.2 ⟨hrest, (below hs).2⟩) hqueue
  | started hs hq hn =>
    rw [hn]
    rw [hq] at hqueue
    obtain ⟨hj, hjs⟩ := List.forall_mem_cons.1 hqueue
    exact All.start hj (List.forall_mem_cons.2 ⟨trivial, (below hs).2⟩) hjs

theorem all_load {w : σ} {p : Program α} (hp : Program.All P p) :
    (load w [] p : Machine α σ β ν).All P where
  stack hf := by
    rw [List.mem_singleton.1 hf]
    exact hp
  queue hj := by cases hj

/-- What every action and every notice keeps, a run keeps. -/
theorem Runs.keeps {I : σ → Prop} {h : List (Happening α ν)}
    (hact : ∀ a v w, I w → I (M.act a v w).world) (hnotify : ∀ e v w, I w → I (M.notify e v w).1)
    (hr : Runs M m h n) (hm : I m.world) : I n.world := by
  induction hr with
  | refl => exact hm
  | step hnext _ ih =>
    apply ih
    cases turn_of_next? hnext with
    | silent hw => exact hw ▸ hm
    | acted hs hw => exact hw ▸ hact _ _ _ hm
    | noticed hs hq hw => exact hw ▸ hnotify _ _ _ hm

/-- The machine after so many steps, or when nothing is left to do. -/
def advance (M : Meaning α σ β ν) : Nat → Machine α σ β ν → Machine α σ β ν
  | 0, m => m
  | k + 1, m =>
    match m.next? M with
    | none => m
    | some n => advance M k n

theorem exists_runs_advance (M : Meaning α σ β ν) (k : Nat) (m : Machine α σ β ν) :
    ∃ h, Runs M m h (m.advance M k) := by
  induction k generalizing m with
  | zero => exact ⟨[], .refl m⟩
  | succ k ih =>
    cases hm : m.next? M with
    | none =>
      refine ⟨[], ?_⟩
      simp only [advance, hm]
      exact .refl m
    | some n =>
      obtain ⟨h, hr⟩ := ih n
      refine ⟨m.happenings M ++ h, ?_⟩
      simp only [advance, hm]
      exact .step hm hr

end Machine

end QuickFix.Schedule
