import Mathlib.Data.List.DropRight
import QuickFix.Log.Setup
import QuickFix.Proofs.Name
import QuickFix.Proofs.Text.Encoding

/-!
# The log buffer and the error stream

A buffer of capacity `n` holds the last `n` lines of all that were pushed (`Buffer.Keeps`), however often
it overflowed. A running program pushes the lines of each event and writes the event to the error stream
as it is.

* `linesOf_append`: lines can be told apart event by event, since each event ends a line;
* `Setup.Mirrors.perform`: one act, a further set-up or an event, keeps the buffer in step with the stream;
* `Setup.last_lines`: the last lines of the buffer are read off the stream, after any acts.
-/

namespace QuickFix.Log

/-! ## Lines pushed and lines kept -/

namespace Buffer

/-- The buffer holds the last of the lines `history`, as many as it has room for. -/
structure Keeps (b : Buffer) (history : List Text) : Prop where
  room : 0 < b.capacity
  lines_eq : b.lines = history.rtake b.capacity

namespace Keeps

variable {b : Buffer} {history : List Text}

theorem empty (capacity : Nat) : (Buffer.empty capacity).Keeps [] where
  room := Nat.lt_of_lt_of_le Nat.one_pos (Nat.le_max_right ..)
  lines_eq := (List.rtake_nil _).symm

theorem length_lines (h : b.Keeps history) : b.lines.length = min history.length b.capacity := by
  rw [h.lines_eq, List.rtake_eq_reverse_take_reverse, List.length_reverse, List.length_take,
    List.length_reverse, Nat.min_comm]

theorem push (h : b.Keeps history) (line : Text) : (b.push line).Keeps (history ++ [line]) where
  room := h.room
  lines_eq := by
    have hroom := h.room
    have hlength := h.length_lines
    show (if b.lines.length = b.capacity then b.lines.drop 1 else b.lines) ++ [line] =
      (history ++ [line]).rtake b.capacity
    rw [show b.capacity = b.capacity - 1 + 1 by omega, List.rtake_concat_succ]
    refine congrArg (· ++ [line]) ?_
    by_cases hfull : b.lines.length = b.capacity
    · rw [if_pos (by omega), h.lines_eq, List.rtake, List.rtake, List.drop_drop]
      exact congrArg (List.drop · history) (by omega)
    · rw [if_neg (by omega), h.lines_eq, List.rtake, List.rtake]
      exact congrArg (List.drop · history) (by omega)

theorem foldl_push (h : b.Keeps history) (lines : List Text) :
    (lines.foldl Buffer.push b).Keeps (history ++ lines) := by
  induction lines generalizing b history with
  | nil => rwa [List.append_nil]
  | cons line lines ih => simpa using ih (h.push line)

theorem last_eq (h : b.Keeps history) (n : Nat) :
    b.last n = (history.rtake b.capacity).rtake n := by
  rw [Buffer.last, h.lines_eq]
  rfl

end Keeps

theorem capacity_foldl_push (lines : List Text) (b : Buffer) :
    (lines.foldl push b).capacity = b.capacity := by
  induction lines generalizing b with
  | nil => rfl
  | cons line lines ih => exact ih (b.push line)

end Buffer

/-! ## Lines of a stream -/

/-- The text breaks off at the end of a line. -/
def EndsLine (t : Text) : Prop := t = [] ∨ ∃ u, t = u ++ ['\n']

theorem linesOf_append {a : Text} (ha : EndsLine a) (b : Text) :
    linesOf (a ++ b) = linesOf a ++ linesOf b := by
  rcases ha with rfl | ⟨u, rfl⟩
  · rfl
  · -- Behind the line feed at the end of `a` comes an empty line, which is left out.
    have hsplit : ∀ v : Text, linesOf (u ++ '\n' :: v) = linesOf u ++ linesOf v := fun v => by
      simp only [linesOf, List.splitOn_append_cons_self, List.map_append, List.filter_append]
    have hend : linesOf (u ++ ['\n']) = linesOf u := by
      rw [hsplit]
      exact List.append_nil _
    rw [List.append_assoc, List.singleton_append, hsplit, hend]

theorem EndsLine.append {a b : Text} (ha : EndsLine a) (hb : EndsLine b) : EndsLine (a ++ b) := by
  rcases hb with rfl | ⟨u, rfl⟩
  · rwa [List.append_nil]
  · exact .inr ⟨a ++ u, (List.append_assoc ..).symm⟩

theorem lines_write_encode (t : Text) :
    (Buffer.Writer.empty.write (Text.encode t)).lines = linesOf t := by
  show linesOf (Text.decode ([] ++ Text.encode t)) = linesOf t
  rw [List.nil_append, Text.decode_encode]

/-! ## Acts of a running program -/

/-- What a program does with its logging once that is set up. -/
inductive Act where
  /-- Set it up again, with other settings and another environment. -/
  | setUp (s : LogSettings) (environment? : Option Text)
  /-- Have an event written, laid out with the time at hand. -/
  | emit (l : Layout) (e : Event)

namespace Act

/-- The logging after an act. -/
def perform (read : Directive.Reader) (p : Setup) : Act → Setup
  | .setUp s environment? => p.setUp s environment? read
  | .emit l e => p.emitAs l e

/-- What an act writes where events go to `k`. -/
def written (k : Sink) : Act → Text
  | .setUp _ _ => []
  | .emit l e => if k.filter.allows e.level e.target then l.text k e else []

end Act

namespace Setup

/-- Events go to `k`, to the error stream among others: `stream` was written there, and a buffer with
room for `capacity` lines keeps the last lines of that. -/
structure Mirrors (p : Setup) (k : Sink) (capacity : Nat) (stream : Text) : Prop where
  started : p.started = true
  sink : p.sink? = some k
  mirrored : k.stderr = true
  stderr_eq : p.stderr = stream
  buffer : ∃ b, p.buffer? = some b ∧ b.capacity = capacity ∧ b.Keeps (linesOf stream)
  endsLine : EndsLine stream

theorem mirrors_setUp {s : LogSettings} (hs : s.stderr = true) (environment? : Option Text)
    (read : Directive.Reader) : ((fresh false).setUp s environment? read).Mirrors
      ⟨s.filter environment? read, s.json, true⟩ (max 1 s.bufferLines) [] where
  started := rfl
  sink := by rw [← hs]; rfl
  mirrored := rfl
  stderr_eq := rfl
  buffer := ⟨_, rfl, Nat.max_comm .., .empty s.bufferLines⟩
  endsLine := .inl rfl

variable (read : Directive.Reader) {p : Setup} {k : Sink} {capacity : Nat} {stream : Text}

theorem Mirrors.emitAs (h : p.Mirrors k capacity stream) (l : Layout) (e : Event) :
    (p.emitAs l e).Mirrors k capacity (stream ++ (Act.emit l e).written k) := by
  obtain ⟨b, hb, hcapacity, hkeeps⟩ := h.buffer
  by_cases hallowed : k.filter.allows e.level e.target
  · have hp : p.emitAs l e = { p with
        buffer? := some ((linesOf (l.text k e)).foldl Buffer.push b)
        stderr := p.stderr ++ l.text k e } := by
      simp only [Setup.emitAs, h.sink, hb, if_pos hallowed, if_pos h.mirrored, Buffer.Writer.close,
        lines_write_encode]
    rw [hp, Act.written, if_pos hallowed]
    exact {
      started := h.started
      sink := h.sink
      mirrored := h.mirrored
      stderr_eq := congrArg (· ++ l.text k e) h.stderr_eq
      buffer := by
        refine ⟨_, rfl, (Buffer.capacity_foldl_push ..).trans hcapacity, ?_⟩
        rw [linesOf_append h.endsLine]
        exact hkeeps.foldl_push _
      endsLine := h.endsLine.append (.inr (l.endsLine k e)) }
  · have hp : p.emitAs l e = p := by
      simp only [Setup.emitAs, h.sink, hb, if_neg hallowed]
    rw [hp, Act.written, if_neg hallowed, List.append_nil]
    exact h

theorem Mirrors.setUp_again (h : p.Mirrors k capacity stream) (s : LogSettings)
    (environment? : Option Text) : p.setUp s environment? read = p := by
  obtain ⟨b, hb, -⟩ := h.buffer
  rw [Setup.setUp, if_pos h.started, hb]
  show { p with buffer? := some b } = p
  rw [← hb]

/-- One act keeps the buffer in step with the error stream. -/
theorem Mirrors.perform (h : p.Mirrors k capacity stream) (a : Act) :
    (a.perform read p).Mirrors k capacity (stream ++ a.written k) := by
  cases a with
  | setUp s environment? =>
    rw [Act.perform, h.setUp_again read, Act.written, List.append_nil]
    exact h
  | emit l e => exact h.emitAs l e

theorem Mirrors.foldl_perform (h : p.Mirrors k capacity stream) (acts : List Act) :
    (acts.foldl (Act.perform read) p).Mirrors k capacity (stream ++ acts.flatMap (Act.written k)) := by
  induction acts generalizing p stream with
  | nil => simpa using h
  | cons a acts ih => simpa using ih (h.perform read a)

/-- After a first set-up with the error stream on, whatever acts follow: the stream holds the events that
the first filter allows, laid out in the first format, and the last `n` lines of the buffer are the last
`n` of as many of the lines of the stream as the first settings ask for, one at least. -/
theorem last_lines {s : LogSettings} (hs : s.stderr = true) (environment? : Option Text)
    (acts : List Act) :
    let p := acts.foldl (Act.perform read) ((fresh false).setUp s environment? read)
    p.stderr = acts.flatMap (Act.written ⟨s.filter environment? read, s.json, true⟩) ∧
    ∃ b, p.buffer? = some b ∧
      ∀ n, b.last n = ((linesOf p.stderr).rtake (max 1 s.bufferLines)).rtake n := by
  have h := (mirrors_setUp hs environment? read).foldl_perform read acts
  obtain ⟨b, hb, hcapacity, hkeeps⟩ := h.buffer
  refine ⟨h.stderr_eq, b, hb, fun n => ?_⟩
  rw [hkeeps.last_eq, hcapacity, h.stderr_eq]

/-- Two lines of room, a message of four lines of which one is empty, and settings that would keep more
and write nothing, in vain. -/
theorem last_lines_overflow :
    let s : LogSettings := ⟨"info", false, true, 2⟩
    let e : Event := ⟨.warn, "nova", "a\r\n\r\nb\nc", []⟩
    let acts : List Act := [.setUp ⟨"off", true, false, 9⟩ none, .emit (.dated "12:00") e]
    let p := acts.foldl (Act.perform .lenient) ((fresh false).setUp s none)
    s.stderr = true ∧ p.stderr = "12:00  WARN nova: a\r\n\r\nb\nc\n" ∧
      ∃ b, p.buffer? = some b ∧ b.last 5 = [("b" : Text), ("c" : Text)] := by
  intro s e acts p
  obtain ⟨hstderr, b, hb, hlast⟩ := last_lines .lenient (s := s) rfl none acts
  have hwritten : p.stderr = "12:00  WARN nova: a\r\n\r\nb\nc\n" := hstderr.trans (by decide +kernel)
  refine ⟨rfl, hwritten, b, hb, (hlast 5).trans ?_⟩
  show ((linesOf p.stderr).rtake 2).rtake 5 = _
  rw [hwritten]
  decide +kernel

end Setup

end QuickFix.Log
