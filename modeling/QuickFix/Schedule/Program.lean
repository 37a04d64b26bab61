import QuickFix.Log.Event

/-!
# Programs of the user interface thread

A program is a list of steps. Actions are single steps of any type; around them, steps put off jobs,
run write actions, run the jobs that were put off, and panic. `Program.weight` bounds how many steps
of a machine a program can take.
-/

namespace QuickFix.Schedule

/-- What a panic carries. -/
inductive Payload where
  | text (t : Text)
  /-- Anything but a text. -/
  | other
  deriving DecidableEq, Repr

/-- The text that is shown for a panic. -/
def Payload.message : Payload → Text
  | .text t => t
  | .other => "<non-string panic payload>"

/-- A step of a program over actions of type `α`. -/
inductive Step (α : Type) where
  | act (a : α)
  /-- Put off a job until the queue is pumped. -/
  | later (job : List (Step α))
  /-- Run steps within a write action. A panic in them ends it and goes on, unless it is caught
  there. -/
  | writing (isCaught : Bool) (body : List (Step α))
  /-- Run the jobs that were put off. -/
  | pump
  | panic (p : Payload)

instance {α : Type} : Inhabited (Step α) := ⟨.pump⟩

/-- Steps that run one after the other. -/
abbrev Program (α : Type) := List (Step α)

/-- Run steps within a write action; a panic in it ends there. -/
def Step.write {α : Type} (body : Program α) : Step α := .writing true body

mutual

/-- A bound for the machine steps that a step takes. -/
def Step.weight {α : Type} : Step α → Nat
  | .act _ => 5
  | .later job => Program.weight job + 5
  | .writing _ body => Program.weight body + 5
  | .pump => 5
  | .panic _ => 5

/-- A bound for the machine steps that a program takes. -/
def Program.weight {α : Type} : List (Step α) → Nat
  | [] => 1
  | s :: ss => s.weight + Program.weight ss

end

end QuickFix.Schedule
