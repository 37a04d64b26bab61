import QuickFix.Text.Utf8

/-!
# The log buffer

The most recent log lines, for reports. Lines are pushed one by one, or written as bytes through a
`Buffer.Writer`, which breaks what was written into lines when it is closed.
-/

namespace QuickFix.Log

/-- The lines of a text without the carriage returns at their ends, the empty ones left out. -/
def linesOf (t : Text) : List Text :=
  ((t.splitOn '\n').map (Text.dropEndWhile (· = '\r'))).filter fun l => !l.isEmpty

/-- The last lines of a log, oldest first. -/
structure Buffer where
  /-- How many lines are kept. -/
  capacity : Nat
  lines : List Text
  deriving DecidableEq, Repr

namespace Buffer

/-- A buffer without lines; it keeps at least one. -/
def empty (capacity : Nat) : Buffer := ⟨max capacity 1, []⟩

/-- Add a line; the oldest one leaves a full buffer. -/
def push (b : Buffer) (line : Text) : Buffer :=
  { b with lines := (if b.lines.length = b.capacity then b.lines.drop 1 else b.lines) ++ [line] }

/-- The last `n` lines, oldest first. -/
def last (b : Buffer) (n : Nat) : List Text := b.lines.drop (b.lines.length - n)

/-- What has been written for one event. -/
structure Writer where
  bytes : List UInt8

namespace Writer

/-- Nothing written yet. -/
def empty : Writer := ⟨[]⟩

/-- Write some bytes. -/
def write (w : Writer) (bytes : List UInt8) : Writer := ⟨w.bytes ++ bytes⟩

/-- The lines that were written. -/
def lines (w : Writer) : List Text := linesOf (Text.decode w.bytes)

/-- Push the lines that were written. -/
def close (w : Writer) (b : Buffer) : Buffer := w.lines.foldl push b

end Writer

end Buffer

end QuickFix.Log
