import QuickFix.Schedule.Machine

/-!
# Scripts

Programs whose actions only talk: they give a text, or look at the state of the scheduler.
-/

namespace QuickFix.Schedule

/-- An action of a script. -/
inductive Talk where
  /-- Give a text. -/
  | say (t : Text)
  /-- Look at the scheduler. -/
  | look
  deriving DecidableEq, Repr

/-- The answer to an action of a script. -/
inductive Said where
  | text (t : Text)
  | view (v : View)
  deriving DecidableEq, Repr

/-- The meaning of the actions of a script. They change nothing and put off no notices. -/
def talking : Meaning Talk Unit Said Empty where
  act
    | .say t, _, w => ⟨w, .ok (.text t), none, []⟩
    | .look, v, w => ⟨w, .ok (.view v), none, []⟩
  notify n := nomatch n

/-- The run of a script from a queue. -/
def runScript (queue : List (Job Talk Empty)) (p : Program Talk) : Machine Talk Unit Said Empty :=
  (Machine.load () queue p).run talking

end QuickFix.Schedule
