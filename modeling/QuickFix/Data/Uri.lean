import QuickFix.Text.Basic

/-!
# URI references

A reference is a scheme, an authority, a path, a query and a fragment, of which only the path must be
there. It holds ASCII characters alone; others are written as `%` and two hexadecimal digits. Reading
goes from left to right, and the first place that fits nothing is the error.
-/

namespace QuickFix

/-- A URI reference. -/
structure Uri where
  text : Text
  deriving DecidableEq, Repr

/-- What is wrong at a place of a reference. -/
inductive UriFault where
  /-- A `%` without two digits. -/
  | octet
  | character
  /-- An address in brackets that is none. -/
  | address
  deriving DecidableEq, Repr

/-- Why a text is not a reference. -/
structure UriError where
  fault : UriFault
  index : Nat
  deriving DecidableEq, Repr

/-- Wording of an error. -/
def UriError.message (e : UriError) : Text :=
  let what : Text := match e.fault with
    | .octet => "invalid percent-encoded octet"
    | .character => "unexpected character"
    | .address => "invalid IP literal"
  what ++ " at index " ++ Text.ofNat e.index

namespace Uri

/-! ## Characters -/

/-- A hexadecimal digit. -/
def isHex (c : Char) : Bool := c.isDigit || ('a' ≤ c && c ≤ 'f') || ('A' ≤ c && c ≤ 'F')

/-- A character of a scheme. -/
def inScheme (c : Char) : Bool := c.isAlphanum || "+-.".toList.elem c

/-- A character of the name of a host. -/
def inName (c : Char) : Bool := c.isAlphanum || "-._~!$&'()*+,;=".toList.elem c

/-- A character of an authority before an at sign. -/
def inUser (c : Char) : Bool := inName c || c = ':'

/-- A character of the first segment of a path without a scheme before it. -/
def inFirstSegment (c : Char) : Bool := inName c || c = '@'

/-- A character of a path. -/
def inPath (c : Char) : Bool := inName c || "@:/".toList.elem c

/-- A character of a query or a fragment. -/
def inQuery (c : Char) : Bool := inPath c || c = '?'

/-! ## Addresses in brackets -/

/-- A number from 0 to 255 without needless zeros. -/
def isByte (t : Text) : Bool :=
  let n := t.foldl (fun n c => 10 * n + (c.toNat - 48)) 0
  !t.isEmpty && t.all Char.isDigit && n ≤ 255 && Text.ofNat n = t

/-- Four bytes with dots between them. -/
def isDottedAddress (t : Text) : Bool :=
  let parts := t.splitOn '.'
  parts.length = 4 && parts.all isByte

/-- Number of groups of a list of them with colons between, if it is one. The last group may be four
bytes, which count as two groups. -/
def groupCount? (mayBeDotted : Bool) (t : Text) : Option Nat :=
  if t.isEmpty then some 0
  else
    let parts := t.splitOn ':'
    let isGroup (p : Text) : Bool := !p.isEmpty && p.length ≤ 4 && p.all isHex
    if parts.all isGroup then some parts.length
    else if mayBeDotted && parts.dropLast.all isGroup && parts.getLast?.any isDottedAddress then
      some (parts.length + 1)
    else none

/-- Eight groups, some of which a double colon may stand for. -/
def isAddress (t : Text) : Bool :=
  match Text.around? "::" t with
  | none => groupCount? true t = some 8 && !t.isEmpty
  | some (before, after) =>
    match groupCount? false before, groupCount? true after with
    | some m, some n => m + n ≤ 7
    | _, _ => false

/-! ## Reading -/

/-- What is left of a reference, and the index where it starts. -/
structure Rest where
  index : Nat
  text : Text

/-- An unexpected character where a rest starts. -/
def Rest.unexpected {α : Type} (r : Rest) : Except UriError α := .error ⟨.character, r.index⟩

/-- Skip characters of a class and encoded octets. -/
def skip (isIn : Char → Bool) (index : Nat) : Text → Except UriError Rest
  | '%' :: a :: b :: t =>
    if isHex a && isHex b then skip isIn (index + 3) t else .error ⟨.octet, index⟩
  | '%' :: _ => .error ⟨.octet, index⟩
  | c :: t => if isIn c then skip isIn (index + 1) t else .ok ⟨index, c :: t⟩
  | [] => .ok ⟨index, []⟩

/-- Skip a part after its sign `c`, if there is one. -/
def skipPart (c : Char) (isIn : Char → Bool) (r : Rest) : Except UriError Rest :=
  match r.text with
  | d :: t => if d = c then skip isIn (r.index + 1) t else .ok r
  | [] => .ok r

/-- Read a query, a fragment and the end. -/
def readQuery (r : Rest) : Except UriError Unit := do
  let r ← skipPart '?' inQuery r
  let r ← skipPart '#' inQuery r
  if r.text.isEmpty then return () else r.unexpected

/-- Read a path and what follows it. -/
def readPath (r : Rest) : Except UriError Unit := do readQuery (← skip inPath r.index r.text)

/-- Read a path after an authority, empty or from the root, and what follows it. -/
def readRootedPath (r : Rest) : Except UriError Unit := do
  let after ← skip inPath r.index r.text
  if r.index < after.index && r.text.head? ≠ some '/' then r.unexpected else readQuery after

/-- Read a path without a scheme before it, whose first segment has no colon, and what follows it. -/
def readRelativePath (r : Rest) : Except UriError Unit := do
  let r ← skip inFirstSegment r.index r.text
  if r.text.head? = some ':' then r.unexpected else readPath r

/-- Read the number of a service and what follows it. -/
def readService (r : Rest) : Except UriError Unit :=
  match r.text with
  | ':' :: t =>
    let digits := t.takeWhile Char.isDigit
    readRootedPath ⟨r.index + 1 + digits.length, t.dropWhile Char.isDigit⟩
  | _ => readRootedPath r

/-- Read an address in brackets, which starts after the bracket at `index`, and what follows it. -/
def readAddress (index : Nat) (t : Text) : Except UriError Unit :=
  let address := t.takeWhile (· ≠ ']')
  match t.dropWhile (· ≠ ']') with
  | _ :: t =>
    if isAddress address then readService ⟨index + address.length + 2, t⟩ else .error ⟨.address, index⟩
  | [] => .error ⟨.address, index⟩

/-- Read a host and what follows it. -/
def readHost (r : Rest) : Except UriError Unit := do
  match r.text with
  | '[' :: t => readAddress r.index t
  | t => readService (← skip inName r.index t)

/-- The index of the character that keeps `t` from being a name and a number: the first of several
colons, or the last character after the colon that is no digit. -/
def badService? (t : Text) : Option Nat :=
  match t.count ':' with
  | 0 => none
  | 1 =>
    let digits := t.reverse.takeWhile Char.isDigit
    let i := t.length - 1 - digits.length
    if t[i]? = some ':' then none else some i
  | _ => t.findIdx? (· = ':')

/-- Read an authority and what follows it. -/
def readAuthority (r : Rest) : Except UriError Unit := do
  let after ← skip inUser r.index r.text
  match after.text with
  | '@' :: t => readHost ⟨after.index + 1, t⟩
  | _ =>
    if after.index = r.index then readHost r
    else match badService? (r.text.take (after.index - r.index)) with
      | some i => .error ⟨.character, r.index + i⟩
      | none => readRootedPath after

/-- Read what may start with two slashes and an authority, or else is a path as `other` reads it. -/
def readHierarchy (other : Rest → Except UriError Unit) (r : Rest) : Except UriError Unit :=
  match r.text with
  | '/' :: '/' :: t => readAuthority ⟨r.index + 2, t⟩
  | _ => other r

/-- Read a whole reference. -/
def read (t : Text) : Except UriError Unit :=
  let scheme := t.takeWhile inScheme
  match t.dropWhile inScheme with
  | ':' :: rest =>
    if scheme.head?.any Char.isAlpha then readHierarchy readPath ⟨scheme.length + 1, rest⟩
    else .error ⟨.character, 0⟩
  | _ => readHierarchy readRelativePath ⟨0, t⟩

/-- The reference that a text is. -/
def parse (t : Text) : Except UriError Uri := (read t).map fun _ => ⟨t⟩

end Uri

end QuickFix
