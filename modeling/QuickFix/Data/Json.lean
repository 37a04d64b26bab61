import QuickFix.Number.Decimal
import QuickFix.Text.Quoted

/-!
# JSON values

Objects are lists of members. The members of a value that has been read are in the order of their
names, each name once.
-/

namespace QuickFix

/-- A JSON value. -/
inductive Json where
  | null
  | bool (b : Bool)
  | integer (n : Int)
  | float (x : Double)
  | text (t : Text)
  | list (items : List Json)
  | object (members : List (Text × Json))
  deriving Repr, Inhabited

namespace Json

instance : Coe String Json := ⟨fun s => .text s⟩

/-- The value, or null. -/
def ofOption {α : Type} (f : α → Json) : Option α → Json
  | none => .null
  | some a => f a

/-- A natural number. -/
def nat (n : Nat) : Json := .integer n

/-- The member of an object with this name. -/
def field? (j : Json) (name : Text) : Option Json :=
  match j with
  | .object members => members.lookup name
  | _ => none

/-- A character within a JSON string. -/
def escape (c : Char) : Text :=
  match c with
  | '"' => ['\\', '"']
  | '\\' => ['\\', '\\']
  | '\n' => ['\\', 'n']
  | '\r' => ['\\', 'r']
  | '\t' => ['\\', 't']
  | '\x08' => ['\\', 'b']
  | '\x0c' => ['\\', 'f']
  | c =>
    let digits := Text.hex c.toNat
    if c.toNat < 0x20 then "\\u" ++ List.replicate (4 - digits.length) '0' ++ digits else [c]

/-- A JSON string. -/
def quote (t : Text) : Text := '"' :: t.flatMap escape ++ ['"']

mutual

/-- A value as text on one line. -/
def render : Json → Text
  | .null => "null"
  | .bool b => if b then "true" else "false"
  | .integer n => Text.ofInt n
  | .float x => x.render Double.compact
  | .text t => quote t
  | .list items => '[' :: renderItems items ++ [']']
  | .object members => '\x7b' :: renderMembers members ++ ['\x7d']

/-- Values with commas between them. -/
def renderItems : List Json → Text
  | [] => []
  | [j] => render j
  | j :: js => render j ++ "," ++ renderItems js

/-- Members with commas between them. -/
def renderMembers : List (Text × Json) → Text
  | [] => []
  | [(name, j)] => quote name ++ ":" ++ render j
  | (name, j) :: ms => quote name ++ ":" ++ render j ++ "," ++ renderMembers ms

end

end Json

end QuickFix
