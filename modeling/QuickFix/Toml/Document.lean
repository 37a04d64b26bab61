import QuickFix.Toml.Value

/-!
# TOML documents

A document is a sequence of statements: headers that open a table, and entries of the open table.
`Draft` is the document so far. It remembers how each table came about, since that decides what may
still be added: a table that a longer header implied can get a header of its own, and then moves to
the end of its parent; a table that dotted keys made can only get more entries by dotted keys.
-/

namespace QuickFix.Toml

/-- How a table came about. -/
inductive Origin where
  /-- By its own header. -/
  | header
  /-- By the header of a table inside it. -/
  | implied
  /-- By a dotted key. -/
  | dotted
  deriving DecidableEq, Repr

/-- A part of a document that is being read. -/
inductive Draft where
  | value (v : Toml)
  | table (origin : Origin) (entries : List (Text × Draft))
  | tables (elements : List (List (Text × Draft)))
  deriving Repr

namespace Draft

/-- Entries of a table that is being read. -/
abbrev Entries := List (Text × Draft)

/-- The entries with the one called `key` replaced in its place. -/
def set (key : Text) (d : Draft) (es : Entries) : Entries :=
  es.map fun e => if e.1 = key then (key, d) else e

/-- Change the table that a header path leads to; tables on the way that do not exist are implied,
and an array of tables leads to its last element. -/
def descend (f : Entries → Option Entries) : List Text → Entries → Option Entries
  | [], es => f es
  | k :: ks, es =>
    match es.lookup k with
    | none => (descend f ks []).map fun t => es ++ [(k, .table .implied t)]
    | some (.value _) => none
    | some (.table o t) => (descend f ks t).map fun t => set k (.table o t) es
    | some (.tables ts) =>
      (descend f ks (ts.getLast?.getD [])).map fun t => set k (.tables (ts.dropLast ++ [t])) es

/-- Open the table `key` by its own header. -/
def openTable (key : Text) (es : Entries) : Option Entries :=
  match es.lookup key with
  | none => some (es ++ [(key, .table .header [])])
  | some (.table .implied t) => some (es.filter (·.1 ≠ key) ++ [(key, .table .header t)])
  | _ => none

/-- Open a new element of the array of tables `key`. -/
def openElement (key : Text) (es : Entries) : Option Entries :=
  match es.lookup key with
  | none => some (es ++ [(key, .tables [[]])])
  | some (.tables ts) => some (set key (.tables (ts ++ [[]])) es)
  | _ => none

/-- Add an entry by a key with a dotted path before it. `reached` tells whether the table reached so
far may be added to: the open table itself, or one that dotted keys made. -/
def addEntry (key : Text) (v : Toml) : List Text → (reached : Bool) → Entries → Option Entries
  | [], reached, es =>
    if reached ∧ (es.lookup key).isNone then some (es ++ [(key, .value v)]) else none
  | k :: ks, _, es =>
    match es.lookup k with
    | none => (addEntry key v ks true []).map fun t => es ++ [(k, .table .dotted t)]
    | some (.value _) => none
    | some (.table .header _) => none
    | some (.table o t) => (addEntry key v ks (o = .dotted) t).map fun t => set k (.table o t) es
    | some (.tables ts) =>
      (addEntry key v ks false (ts.getLast?.getD [])).map fun t =>
        set k (.tables (ts.dropLast ++ [t])) es

mutual

/-- The value that a part of a document has in the end. -/
def close : Draft → Toml
  | .value v => v
  | .table _ es => .table (closeEntries es)
  | .tables ts => .list (closeElements ts)

/-- The entries that a table has in the end. -/
def closeEntries : List (Text × Draft) → List (Text × Toml)
  | [] => []
  | (k, d) :: es => (k, close d) :: closeEntries es

/-- The elements that an array of tables has in the end. -/
def closeElements : List (List (Text × Draft)) → List Toml
  | [] => []
  | es :: ts => .table (closeEntries es) :: closeElements ts

end

end Draft

/-- A statement of a document. -/
inductive Statement where
  /-- `[path.key]` -/
  | header (path : List Text) (key : Text)
  /-- `[[path.key]]` -/
  | element (path : List Text) (key : Text)
  /-- `path.key = value` -/
  | entry (path : List Text) (key : Text) (value : Toml)
  deriving Repr

/-- The document so far: its root table, and the path to the open table. -/
structure Progress where
  root : Draft.Entries
  opened : List Text

/-- The document with one more statement; `none` if the statement is not allowed there. -/
def Progress.add (p : Progress) : Statement → Option Progress
  | .header path key =>
    (Draft.descend (Draft.openTable key) path p.root).map (⟨·, path ++ [key]⟩)
  | .element path key =>
    (Draft.descend (Draft.openElement key) path p.root).map (⟨·, path ++ [key]⟩)
  | .entry path key value =>
    (Draft.descend (Draft.addEntry key value path true) p.opened p.root).map (⟨·, p.opened⟩)

/-- The root table that statements make. -/
def ofStatements? (ss : List Statement) : Option (List (Text × Toml)) := do
  let p ← ss.foldlM Progress.add ⟨[], []⟩
  return Draft.closeEntries p.root

/-- The value of an inline table with these entries. -/
def inlineTable? (entries : List (List Text × Text × Toml)) : Option Toml := do
  let es ← entries.foldlM (fun es (path, key, v) => Draft.addEntry key v path true es) []
  return .table (Draft.closeEntries es)

end QuickFix.Toml
