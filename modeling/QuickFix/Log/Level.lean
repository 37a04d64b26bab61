import QuickFix.Number.Decimal
import QuickFix.Text.Blank

/-!
# Log levels

Events have one of five levels. A filter allows the levels up to a bound, which may also be none of
them.
-/

namespace QuickFix.Log

/-- How detailed an event is. -/
inductive Level where
  | error
  | warn
  | info
  | debug
  | trace
  deriving DecidableEq, Repr

namespace Level

/-- The levels from the least to the most detailed. -/
def all : List Level := [.error, .warn, .info, .debug, .trace]

/-- Place of the level among the levels, from 1. -/
def rank : Level → Nat
  | .error => 1
  | .warn => 2
  | .info => 3
  | .debug => 4
  | .trace => 5

/-- Name of the level in settings. -/
def name : Level → Text
  | .error => "error"
  | .warn => "warn"
  | .info => "info"
  | .debug => "debug"
  | .trace => "trace"

/-- Name of the level in log lines. -/
def label : Level → Text
  | .error => "ERROR"
  | .warn => "WARN"
  | .info => "INFO"
  | .debug => "DEBUG"
  | .trace => "TRACE"

end Level

/-- The most detailed level that is allowed; `none` allows no event. -/
abbrev Bound := Option Level

namespace Bound

/-- All bounds, the tightest first. -/
def all : List Bound := none :: Level.all.map some

/-- The bound as a number from 0. -/
def rank (b : Bound) : Nat := (b.map Level.rank).getD 0

/-- Name of the bound in settings. -/
def name (b : Bound) : Text := (b.map Level.name).getD "off"

/-- Does the bound allow events of a level? -/
def allows (b : Bound) (l : Level) : Bool := l.rank ≤ Bound.rank b

/-- The bound that a word names, in any case, or a number from 0 to 5. -/
def parse? (t : Text) : Option Bound :=
  (all.find? fun b => Decimal.natural? t = some (Bound.rank b)).or
    (all.find? fun b => Text.lower t = Bound.name b)

end Bound

end QuickFix.Log
