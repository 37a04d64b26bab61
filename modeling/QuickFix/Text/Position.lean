import QuickFix.Text.Basic

/-!
# Lines and positions

A text is a sequence of lines, each ended by a line feed, a carriage return or the pair of both;
`flatten_lines` says that together they are the text. A `Position` names a place by line and UTF-16
column. `position?` and `offset?` translate between byte offsets and positions: a place between the
two characters of a line end, or past the end of the text, counts as the end of its line.
-/

namespace QuickFix

/-- A stretch of a text, by byte offsets. -/
structure Span where
  start : Nat
  stop : Nat
  deriving DecidableEq, Repr, Inhabited

namespace Span

/-- The empty stretch at an offset. -/
def point (n : Nat) : Span := ⟨n, n⟩

/-- Does the stretch hold no byte? -/
def isEmpty (s : Span) : Bool := s.start == s.stop

/-- Written as `start..stop`. -/
def render (s : Span) : Text := Text.ofNat s.start ++ ".." ++ Text.ofNat s.stop

end Span

/-- A place by line and UTF-16 column, both from zero. -/
structure Position where
  line : Nat
  column : Nat
  deriving DecidableEq, Repr, Inhabited

/-- One line: its content and the characters that end it, none for the last line. -/
structure Line where
  content : Text
  ending : Text
  deriving DecidableEq, Repr

namespace Line

/-- Number of bytes, the line end included. -/
def bytes (l : Line) : Nat := Text.bytes l.content + Text.bytes l.ending

/-- Column of the place `n` bytes into the line; `none` inside a character. -/
def column? (l : Line) (n : Nat) : Option Nat :=
  (Text.cutBytes? (min n (Text.bytes l.content)) l.content).map fun (a, _) => Text.units a

/-- Offset into the line of a column; `none` past its content or inside a pair of code units. -/
def offset? (l : Line) (column : Nat) : Option Nat :=
  (Text.cut? Text.unitCount column l.content).map fun (a, _) => Text.bytes a

end Line

namespace Text

/-- The lines of a text, of which there is at least one. -/
def lines : Text → List Line
  | [] => [⟨[], []⟩]
  | '\r' :: '\n' :: t => ⟨[], ['\r', '\n']⟩ :: lines t
  | c :: t =>
    if c = '\n' ∨ c = '\r' then ⟨[], [c]⟩ :: lines t
    else match lines t with
      | [] => [⟨[c], []⟩]
      | l :: ls => { l with content := c :: l.content } :: ls

theorem flatten_lines (t : Text) : (lines t).flatMap (fun l => l.content ++ l.ending) = t := by
  fun_induction lines t <;> simp_all

/-- Position of the offset `n` within lines of which the first is number `line`. -/
def locate (line : Nat) : List Line → Nat → Option Position
  | [], _ => none
  | [l], n => (l.column? n).map fun c => ⟨line, c⟩
  | l :: m :: ls, n =>
    if n < l.bytes then (l.column? n).map fun c => ⟨line, c⟩
    else locate (line + 1) (m :: ls) (n - l.bytes)

/-- Position of a byte offset; `none` inside a character. -/
def position? (t : Text) (n : Nat) : Option Position := locate 0 (lines t) n

/-- Offset of a position within lines that start at offset `base`. -/
def reach (base : Nat) : List Line → Position → Option Nat
  | [], _ => none
  | l :: _, ⟨0, column⟩ => (l.offset? column).map (base + ·)
  | l :: ls, ⟨line + 1, column⟩ => reach (base + l.bytes) ls ⟨line, column⟩

/-- Byte offset of a position; `none` past the last line, past the end of its line, or inside a
pair of code units. -/
def offset? (t : Text) (p : Position) : Option Nat := reach 0 (lines t) p

/-- The stretch between two positions, if both exist and are in order. -/
def span? (t : Text) (first last : Position) : Option Span := do
  let start ← offset? t first
  let stop ← offset? t last
  if start ≤ stop then return ⟨start, stop⟩ else none

/-- Positions of both ends of the first occurrence of `needle`, if it occurs. -/
def occurrence? (t needle : Text) : Option (Position × Position) := do
  let (before, _) ← around? needle t
  let first ← position? t (bytes before)
  let last ← position? t (bytes before + bytes needle)
  return (first, last)

end Text

end QuickFix
