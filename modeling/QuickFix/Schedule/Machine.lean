import QuickFix.Schedule.Program

/-!
# The machine that runs programs

The machine keeps the queue of jobs that were put off, the number of write actions that are open, and
what is still to do. Jobs run in the order in which they were put off, only while no write action is
open, and a panic in one of them is logged and does not keep the others from running. A panic ends the
write actions that it comes out of. Every machine step makes `Machine.weight` smaller
(`weight_next?_lt`), so every run ends.
-/

namespace QuickFix.Schedule

/-- What an action sees of the machine. -/
structure View where
  /-- Number of open write actions. -/
  depth : Nat
  /-- Number of jobs that are put off. -/
  pending : Nat
  deriving DecidableEq, Repr

/-- Is a write action open? -/
def View.isWriting (v : View) : Bool := 0 < v.depth

/-- What an action did: the world after it, its answer or a panic, a notice that it put off, and what
it logged. -/
structure Reaction (σ β ν : Type) where
  world : σ
  answer : Except Payload β
  notice? : Option ν
  events : List Log.Event

/-- The meaning of actions of type `α` on worlds of type `σ`, with answers of type `β` and notices of
type `ν`. A notice is a job of its own that puts off nothing more. -/
structure Meaning (α σ β ν : Type) where
  act : α → View → σ → Reaction σ β ν
  notify : ν → View → σ → σ × List Log.Event

/-- A job that was put off. -/
inductive Job (α ν : Type) where
  | program (p : Program α)
  | notice (n : ν)

/-- What is to do when what is above it has ended. -/
inductive Frame (α : Type) where
  /-- Go on with these steps. -/
  | steps (p : Program α)
  /-- End a write action of so many steps, in which a panic may be caught. -/
  | endWrite (isCaught : Bool) (count : Nat)
  /-- Go on with the jobs of the queue; so many have run. -/
  | pumping (ran : Nat)

/-- An entry of the record of a run. -/
inductive Entry (β : Type) where
  | answered (b : β)
  /-- A job was put off, and so many are now. -/
  | queued (pending : Nat)
  | writeStarted
  /-- A write action of so many steps ended. -/
  | writeEnded (count : Nat)
  /-- A write action ended by a panic, which was caught. -/
  | writePanicked (message : Text)
  /-- The queue was pumped, and so many jobs ran. -/
  | pumped (ran : Nat)
  | logged (e : Log.Event)

/-- A machine in the middle of a run. -/
structure Machine (α σ β ν : Type) where
  world : σ
  depth : Nat
  queue : List (Job α ν)
  stack : List (Frame α)
  /-- What happened, the latest first. -/
  record : List (Entry β)
  /-- The panic that ended the run, if one did. -/
  fatal? : Option Payload

/-! ## Log events -/

/-- An event of the scheduler. -/
def event (level : Log.Level) (message : Text) (fields : List Log.EventField) : Log.Event :=
  ⟨level, "nova.scheduler", message, fields⟩

/-- A write action was started. -/
def startedEvent (depth : Nat) : Log.Event :=
  event .trace "write action started" [.nat "depth" depth]

/-- The queue was to be pumped within a write action. -/
def notPumpingEvent (pending : Nat) : Log.Event :=
  event .debug "not pumping UI queue inside a write action" [.nat "pending" pending]

/-- A job panicked. -/
def panickedEvent (p : Payload) : Log.Event :=
  event .error "deferred UI job panicked" [.plain "panic" p.message]

namespace Machine

variable {α σ β ν : Type}

/-- What an action sees. -/
def view (m : Machine α σ β ν) : View := ⟨m.depth, m.queue.length⟩

/-- Add an entry to the record. -/
def note (e : Entry β) (m : Machine α σ β ν) : Machine α σ β ν := { m with record := e :: m.record }

/-- Add log events to the record. -/
def noteEvents (es : List Log.Event) (m : Machine α σ β ν) : Machine α σ β ν :=
  es.foldl (fun m e => m.note (.logged e)) m

/-- End what is to do, and the write actions around it, up to where a panic is caught. -/
def unwind (p : Payload) (m : Machine α σ β ν) : List (Frame α) → Machine α σ β ν
  | [] => { m with stack := [], fatal? := some p }
  | .steps _ :: k => unwind p m k
  | .endWrite true _ :: k =>
    { m with stack := k, depth := m.depth - 1 }.note (.writePanicked p.message)
  | .endWrite false _ :: k => unwind p { m with depth := m.depth - 1 } k
  | .pumping ran :: k => { m with stack := .pumping ran :: k }.note (.logged (panickedEvent p))

/-- Do one step, with `k` to do after it. -/
def perform (M : Meaning α σ β ν) (s : Step α) (k : List (Frame α)) (m : Machine α σ β ν) :
    Machine α σ β ν :=
  match s with
  | .act a =>
    let r := M.act a m.view m.world
    let m := { m with
      world := r.world
      queue := m.queue ++ (r.notice?.map Job.notice).toList
      stack := k }.noteEvents r.events
    match r.answer with
    | .ok b => m.note (.answered b)
    | .error p => m.unwind p k
  | .later job =>
    let queue := m.queue ++ [.program job]
    { m with queue := queue, stack := k }.note (.queued queue.length)
  | .writing isCaught body =>
    let depth := m.depth + 1
    { m with depth := depth, stack := .steps body :: .endWrite isCaught body.length :: k }.note
      (.logged (startedEvent depth)) |>.note .writeStarted
  | .pump =>
    if 0 < m.depth then
      { m with stack := k }.note (.logged (notPumpingEvent m.queue.length)) |>.note (.pumped 0)
    else { m with stack := .pumping 0 :: k }
  | .panic p => m.unwind p k

/-- Start a job, with `k` to do after it. -/
def start (M : Meaning α σ β ν) (j : Job α ν) (k : List (Frame α)) (m : Machine α σ β ν) :
    Machine α σ β ν :=
  match j with
  | .program p => { m with stack := .steps p :: k }
  | .notice n =>
    let (world, events) := M.notify n m.view m.world
    { m with world := world, stack := k }.noteEvents events

/-- The machine after one machine step; `none` if nothing is left to do. -/
def next? (M : Meaning α σ β ν) (m : Machine α σ β ν) : Option (Machine α σ β ν) :=
  match m.stack with
  | [] => none
  | .steps [] :: k => some { m with stack := k }
  | .steps (s :: ss) :: k => some (m.perform M s (.steps ss :: k))
  | .endWrite _ count :: k =>
    some ({ m with stack := k, depth := m.depth - 1 }.note (.writeEnded count))
  | .pumping ran :: k =>
    match m.queue with
    | [] => some ({ m with stack := k }.note (.pumped ran))
    | j :: js => some ({ m with queue := js }.start M j (.pumping (ran + 1) :: k))

/-! ## Runs end -/

/-- What the items of a list are worth together. -/
def total {τ : Type} (w : τ → Nat) : List τ → Nat
  | [] => 0
  | a :: l => w a + total w l

theorem total_append {τ : Type} (w : τ → Nat) (l m : List τ) :
    total w (l ++ m) = total w l + total w m := by
  induction l with
  | nil => simp [total]
  | cons a l ih => simp [total, ih, Nat.add_assoc]

/-- Bound for what a frame is worth. -/
def frameWeight : Frame α → Nat
  | .steps p => Program.weight p
  | .endWrite _ _ => 1
  | .pumping _ => 1

/-- Bound for what a job is worth. -/
def jobWeight : Job α ν → Nat
  | .program p => Program.weight p + 1
  | .notice _ => 1

/-- Bound for the machine steps that are left. -/
def weight (m : Machine α σ β ν) : Nat :=
  total frameWeight m.stack + total jobWeight m.queue

@[simp] theorem weight_note (e : Entry β) (m : Machine α σ β ν) :
    (m.note e).weight = m.weight := rfl

@[simp] theorem weight_noteEvents (es : List Log.Event) (m : Machine α σ β ν) :
    (m.noteEvents es).weight = m.weight := by
  induction es generalizing m with
  | nil => rfl
  | cons e es ih => simpa [noteEvents] using ih (m.note (.logged e))

@[simp] theorem queue_noteEvents (es : List Log.Event) (m : Machine α σ β ν) :
    (m.noteEvents es).queue = m.queue := by
  induction es generalizing m with
  | nil => rfl
  | cons e es ih => simpa [noteEvents, note] using ih (m.note (.logged e))

theorem weight_unwind_le (p : Payload) (m : Machine α σ β ν) (k : List (Frame α)) :
    (m.unwind p k).weight ≤ total frameWeight k + total jobWeight m.queue := by
  induction k generalizing m with
  | nil => exact Nat.le_refl _
  | cons f k ih =>
    cases f with
    | steps ss => exact Nat.le_trans (ih m) (Nat.add_le_add_right (Nat.le_add_left ..) _)
    | endWrite isCaught n =>
      cases isCaught with
      | true => exact Nat.add_le_add_right (Nat.le_add_left ..) _
      | false => exact Nat.le_trans (ih _) (Nat.add_le_add_right (Nat.le_add_left ..) _)
    | pumping n => exact Nat.le_refl _

theorem weight_perform_lt (M : Meaning α σ β ν) (s : Step α) (k : List (Frame α))
    (m : Machine α σ β ν) :
    (m.perform M s k).weight < s.weight + total frameWeight k + total jobWeight m.queue := by
  cases s with
  | act a =>
    have one : total (jobWeight : Job α ν → Nat)
        ((M.act a m.view m.world).notice?.map Job.notice).toList ≤ 1 := by
      cases (M.act a m.view m.world).notice? with
      | none => exact Nat.zero_le 1
      | some n => exact Nat.le_refl 1
    simp only [perform, Step.weight]
    split
    · simp only [weight_note, weight_noteEvents]
      simp only [weight, total_append]
      omega
    · refine Nat.lt_of_le_of_lt (weight_unwind_le _ _ _) ?_
      simp only [queue_noteEvents, total_append]
      omega
  | later job =>
    simp only [perform, weight_note, Step.weight]
    simp only [weight, total_append, total, jobWeight]
    omega
  | writing isCaught body =>
    simp only [perform, weight_note, Step.weight]
    simp only [weight, total, frameWeight]
    omega
  | pump =>
    simp only [perform, Step.weight]
    split
    · simp only [weight_note]
      simp only [weight]
      omega
    · simp only [weight, total, frameWeight]
      omega
  | panic p =>
    refine Nat.lt_of_le_of_lt (weight_unwind_le _ _ _) ?_
    simp only [Step.weight]
    omega

theorem weight_next?_lt {M : Meaning α σ β ν} {m m' : Machine α σ β ν} (h : m.next? M = some m') :
    m'.weight < m.weight := by
  unfold next? at h
  split at h
  · cases h
  · rename_i hs
    cases h
    simp only [weight, hs, total, frameWeight, Program.weight]
    omega
  · rename_i s ss k hs
    cases h
    refine Nat.lt_of_lt_of_le (weight_perform_lt M s _ m) ?_
    simp only [weight, hs, total, frameWeight, Program.weight]
    omega
  · rename_i hs
    cases h
    simp only [weight_note]
    simp only [weight, hs, total, frameWeight]
    omega
  · rename_i hs
    split at h
    · rename_i hq
      cases h
      simp only [weight_note]
      simp only [weight, hs, hq, total, frameWeight]
      omega
    · rename_i j js hq
      cases h
      cases j with
      | program p =>
        simp only [start, weight, hs, hq, total, frameWeight, jobWeight]
        omega
      | notice n =>
        simp only [start, weight_noteEvents]
        simp only [weight, hs, hq, total, frameWeight, jobWeight]
        omega

/-- The machine when nothing is left to do. -/
def run (M : Meaning α σ β ν) (m : Machine α σ β ν) : Machine α σ β ν :=
  match _h : m.next? M with
  | none => m
  | some m' => run M m'
termination_by m.weight
decreasing_by exact weight_next?_lt _h

/-- A machine that is about to run a program. -/
def load (world : σ) (queue : List (Job α ν)) (p : Program α) : Machine α σ β ν :=
  ⟨world, 0, queue, [.steps p], [], none⟩

/-- The log events of a run, in order. -/
def events (m : Machine α σ β ν) : List Log.Event :=
  m.record.reverse.filterMap fun
    | .logged e => some e
    | _ => none

end Machine

/-! ## For debugging -/

/-- The queue as it is shown for debugging. -/
def showQueue (pending : Nat) : Text :=
  "UiQueue \x7b pending: " ++ Text.ofNat pending ++ " \x7d"

/-- The scheduler as it is shown for debugging. -/
def showScheduler (pending : Nat) (lock : Text) : Text :=
  "Scheduler \x7b ui: " ++ showQueue pending ++ ", write_lock: " ++ lock ++ " \x7d"

end QuickFix.Schedule
