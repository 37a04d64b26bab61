import QuickFix.Text.Basic

/-!
# Write locks

A write lock is held as long as one of its guards is. The same holder can take a lock again; how often
it has done so is the depth of the lock.
-/

namespace QuickFix.Schedule

/-- The guards that were handed out, in order: the lock that each holds, `none` once it is
released. -/
abbrev Guards := List (Option Nat)

namespace Guards

/-- How often a lock is held. -/
def depth (gs : Guards) (lock : Nat) : Nat := gs.count (some lock)

/-- Is the lock held? -/
def isHeld (gs : Guards) (lock : Nat) : Bool := 0 < Guards.depth gs lock

/-- Hand out a guard of a lock. -/
def acquire (gs : Guards) (lock : Nat) : Guards := gs ++ [some lock]

/-- Release a guard; nothing happens if there is no such guard or it is released. -/
def release (gs : Guards) (guard : Nat) : Guards := gs.set guard none

/-- The depth of the lock of each guard that is not released. -/
def depths (gs : Guards) : List (Option Nat) := gs.map fun g => g.map (Guards.depth gs)

end Guards

/-- A lock as it is shown for debugging. -/
def showLock : Text := "WriteLock \x7b .. \x7d"

end QuickFix.Schedule
