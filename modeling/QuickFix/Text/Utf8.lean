import QuickFix.Text.Basic

/-!
# UTF-8

Texts as bytes. `encode` gives the bytes of a text; `decode` reads any bytes, each longest start of a
character that goes wrong counting as one replacement character; `decode?` reads valid bytes only.
-/

namespace QuickFix.Text

/-- A byte after the first one of a character. -/
def continuation (n : Nat) : UInt8 := UInt8.ofNat (0x80 + n % 64)

/-- The bytes of a character. -/
def encodeChar (c : Char) : List UInt8 :=
  let n := c.toNat
  if n < 0x80 then [UInt8.ofNat n]
  else if n < 0x800 then [UInt8.ofNat (0xc0 + n / 64), continuation n]
  else if n < 0x10000 then
    [UInt8.ofNat (0xe0 + n / 4096), continuation (n / 64), continuation n]
  else
    [UInt8.ofNat (0xf0 + n / 262144), continuation (n / 4096), continuation (n / 64),
      continuation n]

/-- The bytes of a text. -/
def encode (t : Text) : List UInt8 := t.flatMap encodeChar

theorem length_encodeChar (c : Char) : (encodeChar c).length = c.utf8Size := by
  have hsize : c.utf8Size = if c.toNat ≤ 0x7f then 1 else if c.toNat ≤ 0x7ff then 2 else
      if c.toNat ≤ 0xffff then 3 else 4 := rfl
  rw [hsize]
  simp only [encodeChar]
  grind

/-- The bytes of a character outside of ASCII are outside of it. -/
theorem le_of_mem_encodeChar {c : Char} {b : UInt8} (hc : 0x80 ≤ c.toNat)
    (hb : b ∈ encodeChar c) : 0x80 ≤ b.toNat := by
  have hlt : c.toNat < 0x110000 := by
    have hvalid := c.valid
    have hval : c.val.toNat = c.toNat := rfl
    simp only [UInt32.isValidChar, Nat.isValidChar] at hvalid
    omega
  have hbyte : ∀ {n : Nat}, n < 256 → (UInt8.ofNat n).toNat = n := fun h => by
    rw [UInt8.toNat_ofNat', Nat.mod_eq_of_lt h]
  simp only [encodeChar] at hb
  split at hb
  · omega
  all_goals grind [continuation]

/-- Bounds of the second byte of a character that starts with `b`, and the number of bytes that
follow it; `none` if no character of several bytes starts so. -/
def secondByte? (b : Nat) : Option (Nat × Nat × Nat) :=
  if 0xc2 ≤ b ∧ b ≤ 0xdf then some (0x80, 0xbf, 0)
  else if b = 0xe0 then some (0xa0, 0xbf, 1)
  else if b = 0xed then some (0x80, 0x9f, 1)
  else if 0xe1 ≤ b ∧ b ≤ 0xef then some (0x80, 0xbf, 1)
  else if b = 0xf0 then some (0x90, 0xbf, 2)
  else if 0xf1 ≤ b ∧ b ≤ 0xf3 then some (0x80, 0xbf, 2)
  else if b = 0xf4 then some (0x80, 0x8f, 2)
  else none

/-- Read `more` bytes after `code`, the bits so far; gives the code point, if all are there, and the
number of bytes read. -/
def decodeMore (code : Nat) : Nat → List UInt8 → Option Nat × Nat
  | 0, _ => (some code, 0)
  | _ + 1, [] => (none, 0)
  | more + 1, b :: bs =>
    if 0x80 ≤ b.toNat ∧ b.toNat ≤ 0xbf then
      let (code, n) := decodeMore (code * 64 + (b.toNat - 0x80)) more bs
      (code, n + 1)
    else (none, 0)

/-- The code point that the byte `b` and those after it start with, if it is valid, and the number of
bytes after `b` that belong to it or to what is left of it. -/
def decodeFirst (b : UInt8) (bs : List UInt8) : Option Nat × Nat :=
  if b.toNat < 0x80 then (some b.toNat, 0)
  else match secondByte? b.toNat, bs with
    | some (low, high, more), c :: cs =>
      if low ≤ c.toNat ∧ c.toNat ≤ high then
        let bits := b.toNat % (if more = 0 then 32 else if more = 1 then 16 else 8)
        let (code, n) := decodeMore (bits * 64 + (c.toNat - 0x80)) more cs
        (code, n + 1)
      else (none, 0)
    | _, _ => (none, 0)

/-- The characters of some bytes, `none` for each part that is not valid. -/
def decodeParts : List UInt8 → List (Option Char)
  | [] => []
  | b :: bs =>
    let (code, n) := decodeFirst b bs
    code.map Char.ofNat :: decodeParts (bs.drop n)
termination_by bs => bs.length
decreasing_by simp only [List.length_drop, List.length_cons]; omega

/-- The text of some bytes, with a replacement character for each part that is not valid. -/
def decode (bs : List UInt8) : Text := (decodeParts bs).map fun c => c.getD '\ufffd'

/-- The text of valid bytes. -/
def decode? (bs : List UInt8) : Option Text := (decodeParts bs).mapM id

end QuickFix.Text
