import QuickFix.Config.Settings
import QuickFix.Log.Buffer
import QuickFix.Log.Event

/-!
# Setting up logging

A program sets up logging at most once: the first set-up decides about the filter, the format and the
error stream, unless something else has taken the place already. From then on every event that the
filter allows is written to the buffer and, if wanted, to the error stream in the same words.
-/

namespace QuickFix.Log

/-- Where events go. -/
structure Sink where
  filter : Filter
  json : Bool
  stderr : Bool
  deriving DecidableEq, Repr

/-- What is written for an event, with the line feed at its end. -/
def Sink.written (s : Sink) (e : Event) : Text :=
  (if s.json then e.toJson.render else e.render) ++ ['\n']

/-- How an event is laid out as text, the time in it or not. The text ends a line. -/
structure Layout where
  text : Sink → Event → Text
  endsLine : ∀ s e, ∃ t, text s e = t ++ ['\n']

/-- Events without the time. -/
def Layout.timeless : Layout := ⟨Sink.written, fun _ _ => ⟨_, rfl⟩⟩

/-- Events behind the time at which they were written. -/
def Layout.dated (time : Text) : Layout where
  text s e :=
    let line := match s.json, e.toJson with
      | true, .object members => (Json.object (("timestamp", .text time) :: members)).render
      | _, _ => time ++ " " ++ e.render
    line ++ ['\n']
  endsLine _ _ := ⟨_, rfl⟩

/-- The logging of a running program. -/
structure Setup where
  /-- Has something else taken the place of the sink? -/
  taken : Bool
  /-- Was logging set up? -/
  started : Bool
  sink? : Option Sink
  buffer? : Option Buffer
  /-- What was written to the error stream. -/
  stderr : Text
  deriving DecidableEq, Repr

namespace Setup

/-- Logging before any set-up. -/
def fresh (taken : Bool) : Setup := ⟨taken, false, none, none, []⟩

/-- The line that tells that the place was taken. -/
def takenNotice : Text := "nova: global tracing subscriber already installed"

/-- Set up logging; a later set-up changes nothing. `environment?` holds more filter directives. -/
def setUp (p : Setup) (s : LogSettings) (environment? : Option Text)
    (read : Directive.Reader := .lenient) : Setup :=
  let buffer := p.buffer?.getD (.empty s.bufferLines)
  if p.started then { p with buffer? := some buffer }
  else if p.taken then { p with started := true, buffer? := some (buffer.push takenNotice) }
  else { p with
    started := true
    sink? := some ⟨s.filter environment? read, s.json, s.stderr⟩
    buffer? := some buffer }

/-- Write an event in some layout if the filter allows it. -/
def emitAs (l : Layout) (p : Setup) (e : Event) : Setup :=
  match p.sink?, p.buffer? with
  | some s, some b =>
    if s.filter.allows e.level e.target then
      let written := l.text s e
      { p with
        buffer? := some ((Buffer.Writer.empty.write (Text.encode written)).close b)
        stderr := if s.stderr then p.stderr ++ written else p.stderr }
    else p
  | _, _ => p

/-- Write an event, without the time. -/
def emit (p : Setup) (e : Event) : Setup := p.emitAs .timeless e

end Setup

end QuickFix.Log
