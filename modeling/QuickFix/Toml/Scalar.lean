import QuickFix.Number.Width
import QuickFix.Toml.Value

/-!
# TOML scalars

Strings of the four kinds, each read after its opening quotes, and the unquoted words: numbers,
truth values, dates and times.
-/

namespace QuickFix.Toml

/-- A character that may stand in comments and in literal strings: any but the controls, the tab
allowed. -/
def isPlain (c : Char) : Bool := c = '\t' || (0x20 ≤ c.toNat && c.toNat ≠ 0x7f)

/-! ## Strings -/

/-- Value of a hexadecimal digit. -/
def hexDigit? (c : Char) : Option Nat :=
  if c.isDigit then some (c.toNat - '0'.toNat)
  else if 'a' ≤ c ∧ c ≤ 'f' then some (c.toNat - 'a'.toNat + 10)
  else if 'A' ≤ c ∧ c ≤ 'F' then some (c.toNat - 'A'.toNat + 10)
  else none

/-- The character whose code point the digits give, surrogates excluded. -/
def ofHex? (digits : Text) : Option Char := do
  let ds ← digits.mapM hexDigit?
  let n := ds.foldl (fun n d => 16 * n + d) 0
  if n.isValidChar then return Char.ofNat n else none

/-- The character that an escape stands for, read after its backslash, and the number of characters
read. -/
def escape? : Text → Option (Char × Nat)
  | 'b' :: _ => some ('\x08', 1)
  | 't' :: _ => some ('\t', 1)
  | 'n' :: _ => some ('\n', 1)
  | 'f' :: _ => some ('\x0c', 1)
  | 'r' :: _ => some ('\r', 1)
  | '"' :: _ => some ('"', 1)
  | '\\' :: _ => some ('\\', 1)
  | 'u' :: t => if 4 ≤ t.length then (ofHex? (t.take 4)).map (·, 5) else none
  | 'U' :: t => if 8 ≤ t.length then (ofHex? (t.take 8)).map (·, 9) else none
  | _ => none

/-- The rest of a basic string on one line. -/
def basic? : Text → Option (Text × Text)
  | [] => none
  | c :: t =>
    if c = '"' then some ([], t)
    else if c = '\\' then do
      let (d, n) ← escape? t
      let (s, r) ← basic? (t.drop n)
      return (d :: s, r)
    else if isPlain c then do
      let (s, r) ← basic? t
      return (c :: s, r)
    else none
termination_by t => t.length
decreasing_by all_goals simp only [List.length_drop, List.length_cons]; omega

/-- The rest of a literal string on one line. -/
def literal? : Text → Option (Text × Text)
  | [] => none
  | c :: t =>
    if c = '\'' then some ([], t)
    else if isPlain c then do
      let (s, r) ← literal? t
      return (c :: s, r)
    else none

/-- What follows a line end, if the text starts with one. -/
def afterLineEnd? : Text → Option Text
  | '\n' :: t => some t
  | '\r' :: '\n' :: t => some t
  | _ => none

/-- The text without the spaces, tabs and line ends at its start. -/
def dropMargin : Text → Text
  | ' ' :: t => dropMargin t
  | '\t' :: t => dropMargin t
  | '\n' :: t => dropMargin t
  | '\r' :: '\n' :: t => dropMargin t
  | t => t

/-- What follows a line end after a backslash: the line ends there, and the blanks and line ends that
come next are left out. -/
def afterFold? (t : Text) : Option Text :=
  (afterLineEnd? (t.dropWhile fun c => c = ' ' || c = '\t')).map dropMargin

/-- After three quotes `q` that close a string of several lines, up to two more quotes still belong
to it. -/
def closingQuotes (q : Char) (t : Text) : Text × Text :=
  let more := (t.takeWhile (· = q)).take 2
  (more, t.drop more.length)

/-- The rest of a basic string of several lines. -/
def basicLines? : Text → Option (Text × Text)
  | [] => none
  | c :: t =>
    if c = '"' ∧ t.take 2 = ['"', '"'] then some (closingQuotes '"' (t.drop 2))
    else if c = '\\' then
      match afterFold? t with
      | some r => if r.length < (c :: t).length then basicLines? r else none
      | none => do
        let (d, n) ← escape? t
        let (s, r) ← basicLines? (t.drop n)
        return (d :: s, r)
    else match afterLineEnd? (c :: t) with
      | some r =>
        if r.length < (c :: t).length then do
          let (s, r) ← basicLines? r
          return ('\n' :: s, r)
        else none
      | none =>
        if isPlain c then do
          let (s, r) ← basicLines? t
          return (c :: s, r)
        else none
termination_by t => t.length
decreasing_by
  · assumption
  · simp only [List.length_drop, List.length_cons]; omega
  · assumption
  · exact Nat.lt_succ_self t.length

/-- The rest of a literal string of several lines. -/
def literalLines? : Text → Option (Text × Text)
  | [] => none
  | c :: t =>
    if c = '\'' ∧ t.take 2 = ['\'', '\''] then some (closingQuotes '\'' (t.drop 2))
    else match afterLineEnd? (c :: t) with
      | some r =>
        if r.length < (c :: t).length then do
          let (s, r) ← literalLines? r
          return ('\n' :: s, r)
        else none
      | none =>
        if isPlain c then do
          let (s, r) ← literalLines? t
          return (c :: s, r)
        else none
termination_by t => t.length
decreasing_by
  · assumption
  · exact Nat.lt_succ_self t.length

/-- The text without a line end at its start. -/
def dropLineEnd (t : Text) : Text := (afterLineEnd? t).getD t

/-- A string on one line, its opening quote included. -/
def lineString? : Text → Option (Text × Text)
  | '"' :: t => basic? t
  | '\'' :: t => literal? t
  | _ => none

/-- A string of any kind, its opening quotes included. -/
def string? : Text → Option (Text × Text)
  | '"' :: '"' :: '"' :: t => basicLines? (dropLineEnd t)
  | '\'' :: '\'' :: '\'' :: t => literalLines? (dropLineEnd t)
  | t => lineString? t

/-! ## Numbers -/

/-- The digits of a group in which single underscores may stand between digits. -/
def ungroup? (isDigit : Char → Bool) : Text → Option Text
  | [] => none
  | [d] => if isDigit d then some [d] else none
  | d :: '_' :: t => if isDigit d then (ungroup? isDigit t).map (d :: ·) else none
  | d :: t => if isDigit d then (ungroup? isDigit t).map (d :: ·) else none

/-- The number that digits of base `base` spell. -/
def ofDigits (base : Nat) (digits : Text) : Nat :=
  digits.foldl (fun n c => base * n + (hexDigit? c).getD 0) 0

/-- A sign, if there is one: is it a minus? -/
def splitSign : Text → Bool × Text
  | '-' :: t => (true, t)
  | '+' :: t => (false, t)
  | t => (false, t)

/-- Digits of a decimal integer, no zero before others. -/
def wholeDigits? (t : Text) : Option Text :=
  match ungroup? Char.isDigit t with
  | some ('0' :: _ :: _) => none
  | ds => ds

/-- An integer of 64 bits. -/
def within (n : Int) : Option Toml := if fitsSigned64 n then some (.integer n) else none

/-- An integer: with a sign in base ten, or with the mark of another base. -/
def integer? (word : Text) : Option Toml :=
  match word with
  | '0' :: 'x' :: t => do
    within (ofDigits 16 (← ungroup? (fun c => (hexDigit? c).isSome) t))
  | '0' :: 'o' :: t => do within (ofDigits 8 (← ungroup? (fun c => '0' ≤ c ∧ c ≤ '7') t))
  | '0' :: 'b' :: t => do within (ofDigits 2 (← ungroup? (fun c => c = '0' ∨ c = '1') t))
  | _ => do
    let (negative, t) := splitSign word
    let n := ofDigits 10 (← wholeDigits? t)
    within (if negative then -n else n)

/-- The exponent that follows the letter `e`. -/
def exponent? (t : Text) : Option Int := do
  let (negative, t) := splitSign t
  let n := ofDigits 10 (← ungroup? Char.isDigit t)
  return if negative then -n else n

/-- May the character stand in a group of digits? -/
def isGroupChar (c : Char) : Bool := c.isDigit || c = '_'

/-- The digits behind a decimal point, none if there is no point, and what follows them. -/
def fraction? (t : Text) : Option (Text × Text) :=
  match t with
  | '.' :: r =>
    (ungroup? Char.isDigit (r.takeWhile isGroupChar)).map (·, r.dropWhile isGroupChar)
  | r => some ([], r)

/-- The exponent at the end of a number. A number without one has a fraction. -/
def endExponent? (fraction : Text) (t : Text) : Option Int :=
  match t with
  | 'e' :: r => exponent? r
  | 'E' :: r => exponent? r
  | [] => if fraction.isEmpty then none else some 0
  | _ => none

/-- A number with a fraction or an exponent. One too large is refused, but not one too small. -/
def float? (word : Text) : Option Toml := do
  let (negative, t) := splitSign word
  if t = "inf" then return .float (.infinite negative)
  else if t = "nan" then return .float .notANumber
  else
    let whole ← wholeDigits? (t.takeWhile isGroupChar)
    let (fraction, rest) ← fraction? (t.dropWhile isGroupChar)
    let exponent ← endExponent? fraction rest
    let x := Double.ofDecimal ⟨negative, ofDigits 10 (whole ++ fraction), exponent - fraction.length⟩
    if x = .infinite false then none else return .float x

/-! ## Dates and times -/

/-- A number written with exactly `width` digits, between two bounds. -/
def fixed? (width low high : Nat) (t : Text) : Option Nat :=
  if t.length = width ∧ t.all Char.isDigit then
    let n := ofDigits 10 t
    if low ≤ n ∧ n ≤ high then some n else none
  else none

/-- Number of days of a month. -/
def daysIn (year month : Nat) : Nat :=
  if month = 2 then if year % 4 = 0 ∧ (year % 100 ≠ 0 ∨ year % 400 = 0) then 29 else 28
  else if month ∈ [4, 6, 9, 11] then 30 else 31

/-- Is it a date such as `1979-05-27`? -/
def isDate (t : Text) : Bool :=
  match t.splitOn '-' with
  | [y, m, d] =>
    match fixed? 4 0 9999 y, fixed? 2 1 12 m with
    | some y, some m => (fixed? 2 1 (daysIn y m) d).isSome
    | _, _ => false
  | _ => false

/-- Is it a time such as `07:32:00` or `00:32:00.99`? -/
def isTime (t : Text) : Bool :=
  match t.splitOn ':' with
  | [h, m, s] =>
    let (whole, fraction) := (s.takeWhile (· ≠ '.'), s.dropWhile (· ≠ '.'))
    (fixed? 2 0 23 h).isSome && (fixed? 2 0 59 m).isSome && (fixed? 2 0 60 whole).isSome &&
      (fraction.isEmpty || (1 < fraction.length && fraction.tail.all Char.isDigit))
  | _ => false

/-- Is it an offset such as `-07:00`, its sign left out? -/
def isOffset (t : Text) : Bool :=
  match t.splitOn ':' with
  | [h, m] => (fixed? 2 0 23 h).isSome && (fixed? 2 0 59 m).isSome
  | _ => false

/-- Is it a time that an offset may follow? -/
def isZonedTime (t : Text) : Bool :=
  let isSign (c : Char) : Bool := c = '+' || c = '-' || c = 'Z' || c = 'z'
  let time := t.takeWhile fun c => !isSign c
  isTime time &&
    match t.dropWhile fun c => !isSign c with
    | [] => true
    | c :: r => if c = '+' ∨ c = '-' then isOffset r else r.isEmpty

/-- Is it a date, a time, or both? -/
def isMoment (t : Text) : Bool :=
  isTime t || isDate t ||
    (isDate (t.take 10) &&
      match t.drop 10 with
      | c :: r => (c = 'T' || c = 't' || c = ' ') && isZonedTime r
      | [] => false)

/-! ## Words -/

/-- The value of an unquoted word. -/
def word? (word : Text) : Option Toml :=
  if word = "true" then some (.bool true)
  else if word = "false" then some (.bool false)
  else if isMoment word then some .moment
  else (float? word).or (integer? word)

/-- May the character stand in an unquoted word? -/
def isWordChar (c : Char) : Bool :=
  c.isAlphanum || c = '_' || c = '+' || c = '-' || c = '.' || c = ':'

/-- The unquoted word that the text starts with; a date takes in the time after a space. -/
def splitWord (t : Text) : Text × Text :=
  let word := t.takeWhile isWordChar
  match t.dropWhile isWordChar with
  | ' ' :: d :: r =>
    if isDate word ∧ d.isDigit then
      (word ++ ' ' :: (d :: r).takeWhile isWordChar, (d :: r).dropWhile isWordChar)
    else (word, ' ' :: d :: r)
  | r => (word, r)

end QuickFix.Toml
