import QuickFix.Log.Field
import QuickFix.Log.Level
import QuickFix.Text.Identifier

/-!
# Log filters

A filter is a list of directives, each a bound for the events of some targets. Directives are kept
from the most to the least specific one, one for each target, span and field, and the first whose
target starts the target of an event decides about it.

How the text of one directive is read is the affair of the library that keeps filters. A filter is read
with a `Directive.Reader`, which tells of every text which directive it is or why it is none.
`Directive.parse` is the reader that goes by the form of directives; what it leaves open is which texts
are patterns for the value of a field.
-/

namespace QuickFix.Log

/-- A bound for the events of one target, or of all of them, within a span if one is named. -/
structure Directive where
  target? : Option Text
  span? : Option Text
  /-- A field that the span or the event must have. -/
  field? : Option FieldMatch
  bound : Bound
  deriving DecidableEq, Repr

/-- Why a text is not a directive. -/
inductive DirectiveError where
  /-- What stands in the place of the level is none. -/
  | badLevel
  /-- The value of a field is no pattern. -/
  | badField (problem : Text)
  | malformed
  deriving DecidableEq, Repr

/-- Wording of an error. -/
def DirectiveError.message : DirectiveError → Text
  | .badLevel =>
    "error parsing level filter: expected one of \"off\", \"error\", \"warn\", \"info\", \"debug\", \"trace\", or a number 0-5"
  | .badField problem => "invalid field filter: " ++ problem
  | .malformed => "invalid filter directive"

namespace Directive

/-- How the text of one directive is read. -/
abbrev Reader := Text → Except DirectiveError Directive

/-! ## Reading -/

/-- The part of `s` between two offsets; there is none if one of them is inside a character. -/
def part (s : Text) (start stop : Nat) : Except DirectiveError Text :=
  match Text.slice? start stop s with
  | some t => .ok t
  | none => .error .malformed

/-- The part of `s` from an offset on. -/
def partFrom (s : Text) (start : Nat) : Except DirectiveError Text := part s start (Text.bytes s)

/-- The bound that follows an equals sign; nothing there allows all levels. -/
def boundFrom (s : Text) (start : Nat) : Except DirectiveError Bound := do
  let t ← partFrom s start
  if t.isEmpty then return some .trace
  else match Bound.parse? t with
    | some b => return b
    | none => throw .badLevel

/-- The end of a directive after the closing bracket: an equals sign and a bound, or nothing, which
allows all levels. `rest` is what is left and `offset` where it starts. -/
def finish (s : Text) (target? span? : Option Text) (field? : Option FieldMatch) (rest : Text)
    (offset : Nat) : Except DirectiveError Directive :=
  match rest with
  | [] => .ok ⟨target?, span?, field?, some .trace⟩
  | '=' :: _ => do return ⟨target?, span?, field?, ← boundFrom s (offset + 1)⟩
  | _ => .error .malformed

/-- The rest of a directive after an opening bracket. -/
def spanFrom (patternProblem? : Text → Option Text) (s : Text) (target? : Option Text) (rest : Text)
    (offset : Nat) : Except DirectiveError Directive := do
  let isMark (c : Char) : Bool := c = ']' || c = '\x7b'
  let stop := offset + Text.bytes (rest.takeWhile fun c => !isMark c)
  match rest.dropWhile fun c => !isMark c with
  | ']' :: r => finish s target? (some (← part s offset stop)) none r (stop + 1)
  | _ :: r =>
    let span ← part s offset stop
    let start := stop + 1
    let stop := start + Text.bytes (r.takeWhile (· ≠ '\x7d'))
    match r.dropWhile (· ≠ '\x7d') with
    | _ :: r =>
      let text ← part s start stop
      if text.isEmpty then throw .malformed
      let field ← (FieldMatch.parse patternProblem? text).mapError .badField
      match r with
      | ']' :: r =>
        finish s target? (if span.isEmpty then none else some span) (some field) r (stop + 2)
      | _ => throw .malformed
    | [] => throw .malformed
  | [] => throw .malformed

/-- May the character start a directive that does not start with a bracket? -/
def isStart (c : Char) : Bool := c = '-' || c = ':' || c = '_' || Text.isAlphanumeric c

/-- The directive that a text gives: a bound, or a target, a span in brackets or both, with an
equals sign and a bound after them or all levels allowed. Marks are looked for in the text without
blanks around it, and parts are taken from the text as it is. -/
def parse (patternProblem? : Text → Option Text) : Reader := fun s =>
  let t := Text.trim s
  match t with
  | [] => .error .malformed
  | '[' :: r => spanFrom patternProblem? s none r 1
  | c :: _ =>
    if isStart c then
      let isMark (c : Char) : Bool := c = '=' || c = '['
      let stop := Text.bytes (t.takeWhile fun c => !isMark c)
      match t.dropWhile fun c => !isMark c with
      | '=' :: _ => do
        let target ← part s 0 stop
        return ⟨some target, none, none, ← boundFrom s (stop + 1)⟩
      | _ :: r => do spanFrom patternProblem? s (some (← part s 0 stop)) r (stop + 1)
      | [] =>
        match Bound.parse? s with
        | some b => .ok ⟨none, none, none, b⟩
        | none => .ok ⟨some s, none, none, some .trace⟩
    else .error .malformed

/-- The reader where no other is named. It takes any text for a pattern, which is right for directives
whose fields have plain values. -/
def Reader.lenient : Reader := parse fun _ => none

/-! ## Order -/

/-- Compare optional values, an absent one first. -/
def compareOption {α : Type} (f : α → α → Ordering) : Option α → Option α → Ordering
  | none, none => .eq
  | none, some _ => .lt
  | some _, none => .gt
  | some a, some b => f a b

/-- Compare lists item by item. -/
def compareList {α : Type} (f : α → α → Ordering) : List α → List α → Ordering
  | [], [] => .eq
  | [], _ :: _ => .lt
  | _ :: _, [] => .gt
  | a :: as, b :: bs => (f a b).then (compareList f as bs)

/-- Compare texts by their characters. -/
def compareText (a b : Text) : Ordering := compareList (fun c d => compare c.toNat d.toNat) a b

/-- Place of a value among those of other kinds. -/
def rank : ValueMatch → Nat
  | .bool _ => 0
  | .number _ => 1
  | .natural _ => 2
  | .integer _ => 3
  | .pattern _ => 4

/-- Compare values of fields: by kind, and those of one kind by what they are. -/
def compareValue : ValueMatch → ValueMatch → Ordering
  | .bool a, .bool b => compare a.toNat b.toNat
  | .number x, .number y => compare x.place y.place
  | .natural m, .natural n => compare m n
  | .integer m, .integer n => compare m n
  | .pattern a, .pattern b => compareText a b
  | v, w => compare (rank v) (rank w)

/-- Compare fields: one with a value comes after one without, and then the names count. -/
def compareField (f g : FieldMatch) : Ordering :=
  (compare f.value?.isSome.toNat g.value?.isSome.toNat).then <|
  (compareText f.name g.name).then (compareOption compareValue f.value? g.value?)

/-- Which directive is more specific: that with the longer target, then with a span, with a field,
and last with what is greater. -/
def compareSpecific (a b : Directive) : Ordering :=
  (compareOption compare (a.target?.map Text.bytes) (b.target?.map Text.bytes)).then <|
  (compare a.span?.isSome.toNat b.span?.isSome.toNat).then <|
  (compare a.field?.isSome.toNat b.field?.isSome.toNat).then <|
  (compareOption compareText a.target? b.target?).then <|
  (compareOption compareText a.span? b.span?).then <|
  compareOption compareField a.field? b.field?

/-- Put a directive into a list from the most to the least specific; it replaces one that is as
specific. -/
def insert (d : Directive) : List Directive → List Directive
  | [] => [d]
  | e :: es =>
    match compareSpecific d e with
    | .gt => d :: e :: es
    | .eq => d :: es
    | .lt => e :: insert d es

/-- Does the directive count where there are no spans? -/
def isFixed (d : Directive) : Bool := d.span?.isNone && d.field?.all fun f => f.value?.isNone

/-- Does the directive depend on the spans around an event? -/
def isDynamic (d : Directive) : Bool := d.span?.isSome || d.field?.isSome

/-- Written as in settings. -/
def render (d : Directive) : Text :=
  let field := d.field?.elim [] fun f => '\x7b' :: f.render ++ ['\x7d']
  let place := if d.isDynamic then '[' :: d.span?.getD [] ++ field ++ [']'] else []
  d.target?.getD [] ++ place ++
    (if d.target?.isSome ∨ d.isDynamic then ['='] else []) ++ Bound.name d.bound

end Directive

/-- A filter of log events. -/
structure Filter where
  /-- Directives that count where there are no spans. -/
  fixed : List Directive
  /-- Directives that depend on spans. -/
  dynamic : List Directive
  deriving DecidableEq, Repr

namespace Filter

/-- The filter of some directives, of which a later one replaces one as specific. -/
def ofDirectives (ds : List Directive) : Filter where
  fixed := (ds.filter Directive.isFixed).foldl (fun es d => d.insert es) []
  dynamic := (ds.filter Directive.isDynamic).foldl (fun es d => d.insert es) []

/-- The directives that a text gives, with commas between them, empty ones left out. -/
def directives (t : Text) (read : Directive.Reader := .lenient) :
    Except DirectiveError (List Directive) :=
  ((t.splitOn ',').filter fun p => !p.isEmpty).mapM read

/-- The filter that a text gives; all its directives have to be readable. -/
def parse (t : Text) (read : Directive.Reader := .lenient) : Except DirectiveError Filter :=
  (directives t read).map ofDirectives

/-- Written as in settings, the directives that depend on spans last. -/
def render (f : Filter) : Text := Text.join "," ((f.fixed ++ f.dynamic).map Directive.render)

/-- Is an event allowed that is outside of all spans and has no fields but its message? -/
def allows (f : Filter) (level : Level) (target : Text) : Bool :=
  match f.fixed.find? fun d =>
      Text.startsWith target (d.target?.getD []) && d.field?.all fun f => f.name = ("message" : Text) with
  | some d => Bound.allows d.bound level
  | none => false

end Filter

end QuickFix.Log
