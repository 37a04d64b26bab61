import QuickFix.Toml.Scalar
import QuickFix.Toml.Document

/-!
# Reading TOML text

`Toml.read?` gives the root table of a document, or nothing if the text is not TOML. Each reader
takes its part off the front of a text and gives the rest. Lists inside values are read as long as
the text gets shorter, and values nest less than eighty deep.
-/

namespace QuickFix.Toml

/-! ## Blanks, comments and line ends -/

/-- The text without spaces and tabs at its start. -/
def skipSpace (t : Text) : Text := t.dropWhile fun c => c = ' ' || c = '\t'

/-- The text without a comment at its start. -/
def skipComment : Text → Text
  | '#' :: t => t.dropWhile isPlain
  | t => t

/-- The text without spaces, comments and line ends at its start. -/
def skipLines (t : Text) : Text :=
  let r := skipComment (skipSpace t)
  match afterLineEnd? r with
  | some s => if s.length < t.length then skipLines s else s
  | none => r
termination_by t.length

/-- What follows the end of a statement: spaces, a comment, and the line end or the end of the
text. -/
def endOfStatement? (t : Text) : Option Text :=
  match skipComment (skipSpace t) with
  | [] => some []
  | r => afterLineEnd? r

/-! ## Keys -/

/-- May the character stand in an unquoted key? -/
def isKeyChar (c : Char) : Bool := c.isAlphanum || c = '_' || c = '-'

/-- One key, quoted or not. -/
def simpleKey? (t : Text) : Option (Text × Text) :=
  match t with
  | c :: _ =>
    if c = '"' ∨ c = '\'' then lineString? t
    else if isKeyChar c then some (t.takeWhile isKeyChar, t.dropWhile isKeyChar) else none
  | [] => none

/-- The keys of a path with dots between them, spaces around each. -/
def keys? (t : Text) : Option (List Text × Text) := do
  let (k, r) ← simpleKey? (skipSpace t)
  match skipSpace r with
  | '.' :: r =>
    if r.length < t.length then do
      let (ks, r) ← keys? r
      return (k :: ks, r)
    else none
  | r => return ([k], r)
termination_by t.length

/-- How deep values may nest, and how long a path may be. -/
def depthLimit : Nat := 80

/-- A dotted key: the path before its last key, and that key. -/
def path? (t : Text) : Option (List Text × Text × Text) := do
  let (ks, r) ← keys? t
  let last ← ks.getLast?
  if ks.length < depthLimit then return (ks.dropLast, last, r) else none

/-! ## Values -/

mutual

/-- A value in which others nest less than `depth` deep. -/
def value? (depth : Nat) (t : Text) : Option (Toml × Text) :=
  match t with
  | [] => none
  | c :: r =>
    if c = '"' ∨ c = '\'' then (string? t).map fun (s, r) => (.text s, r)
    else if c = '[' then
      match depth with
      | 0 => none
      | depth + 1 => do
        let (vs, r) ← items? depth (skipLines r)
        return (.list vs, r)
    else if c = '\x7b' then
      match depth with
      | 0 => none
      | depth + 1 =>
        match skipSpace r with
        | '\x7d' :: r => some (.table [], r)
        | r => do
          let (es, r) ← entries? depth r
          return (← inlineTable? es, r)
    else
      let (w, r) := splitWord t
      (word? w).map (·, r)
termination_by (depth, 0, 0)

/-- The rest of an array. -/
def items? (depth : Nat) (t : Text) : Option (List Toml × Text) := do
  if t.head? = some ']' then return ([], t.tail)
  let (v, r) ← value? depth t
  match skipLines r with
  | ']' :: r => return ([v], r)
  | ',' :: r =>
    if (skipLines r).length < t.length then do
      let (vs, r) ← items? depth (skipLines r)
      return (v :: vs, r)
    else none
  | _ => none
termination_by (depth, 1, t.length)

/-- The rest of an inline table that has an entry left. -/
def entries? (depth : Nat) (t : Text) : Option (List (List Text × Text × Toml) × Text) := do
  let (path, key, r) ← path? t
  match r with
  | '=' :: r =>
    let (v, r) ← value? depth (skipSpace r)
    match skipSpace r with
    | '\x7d' :: r => return ([(path, key, v)], r)
    | ',' :: r =>
      if r.length < t.length then do
        let (es, r) ← entries? depth r
        return ((path, key, v) :: es, r)
      else none
    | _ => none
  | _ => none
termination_by (depth, 1, t.length)

end

/-! ## Statements -/

/-- A statement, without the end of its line. -/
def statement? (t : Text) : Option (Statement × Text) :=
  match t with
  | '[' :: '[' :: r => do
    let (path, key, r) ← path? r
    match r with
    | ']' :: ']' :: r => return (.element path key, r)
    | _ => none
  | '[' :: r => do
    let (path, key, r) ← path? r
    match r with
    | ']' :: r => return (.header path key, r)
    | _ => none
  | _ => do
    let (path, key, r) ← path? t
    match r with
    | '=' :: r =>
      let (v, r) ← value? (depthLimit - 1) (skipSpace r)
      return (.entry path key v, r)
    | _ => none

/-- The statements of a document. -/
def statements? (t : Text) : Option (List Statement) :=
  match skipLines t with
  | [] => some []
  | r => do
    let (s, rest) ← statement? r
    let rest ← endOfStatement? rest
    if rest.length < t.length then do
      let ss ← statements? rest
      return s :: ss
    else none
termination_by t.length

/-- The root table of a document; a byte order mark before it is left out. -/
def read? (t : Text) : Option (List (Text × Toml)) := do
  let t := match t with
    | '\ufeff' :: r => r
    | t => t
  ofStatements? (← statements? t)

end QuickFix.Toml
