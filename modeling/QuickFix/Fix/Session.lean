import QuickFix.Fix.Host
import QuickFix.Schedule.Machine

/-!
# Sessions

A session calls a host, opens write actions, logs events and leaves a notice for later. It keeps count
of the write actions that are open, so that each call is answered with the knowledge whether there is
one.
-/

namespace QuickFix.Fix

/-- Where a session stands. -/
structure Situation (σ : Type) where
  world : σ
  /-- Number of open write actions. -/
  depth : Nat
  /-- An error that is to be shown later. -/
  notice? : Option ErrorNotice
  events : List Log.Event

/-- Is a write action open? -/
def Situation.isWriting {σ : Type} (s : Situation σ) : Bool := 0 < s.depth

/-- Something that is done in a session. -/
abbrev Session (σ : Type) := StateM (Situation σ)

namespace Session

variable {σ α : Type}

/-- Call the host. -/
def call (H : Host σ) (c : Call) : Session σ c.Reply := fun s =>
  let r := H c s.isWriting s.world
  (r.reply, { s with world := r.world, events := s.events ++ r.events })

/-- Log an event. -/
def log (e : Log.Event) : Session σ Unit := fun s => ((), { s with events := s.events ++ [e] })

/-- Leave a notice for later. -/
def post (n : ErrorNotice) : Session σ Unit := fun s => ((), { s with notice? := some n })

/-- Do something within a write action. -/
def write (p : Session σ α) : Session σ α := fun s =>
  let depth := s.depth + 1
  let (a, s) := p { s with depth := depth, events := s.events ++ [Schedule.startedEvent depth] }
  (a, { s with depth := s.depth - 1 })

end Session

end QuickFix.Fix
