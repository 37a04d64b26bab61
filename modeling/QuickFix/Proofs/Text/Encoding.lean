import QuickFix.Text.Utf8

/-!
# Texts through their bytes

The bytes of a character are read as that character, whatever follows (`decodeFirst_encodeChar`), so a text
is read back from its bytes (`decode_encode`).
-/

namespace QuickFix.Text

theorem toNat_ofNat_byte {n : Nat} (h : n < 256) : (UInt8.ofNat n).toNat = n := by
  rw [UInt8.toNat_ofNat', Nat.mod_eq_of_lt h]

theorem toNat_continuation (n : Nat) : (continuation n).toNat = 0x80 + n % 64 :=
  toNat_ofNat_byte (by omega)

theorem decodeMore_continuation (code more n : Nat) (bs : List UInt8) :
    decodeMore code (more + 1) (continuation n :: bs) =
      ((decodeMore (code * 64 + n % 64) more bs).1,
        (decodeMore (code * 64 + n % 64) more bs).2 + 1) := by
  have hn := toNat_continuation n
  rw [decodeMore, if_pos (by omega), hn, Nat.add_sub_cancel_left]

/-- Bits of a code point that the first byte of a character holds, if `more + 2` bytes make it up. -/
def firstBits (b more : Nat) : Nat := b % (if more = 0 then 32 else if more = 1 then 16 else 8)

theorem decodeFirst_continuation {b : UInt8} {low high more n : Nat} (hb : 0x80 ≤ b.toNat)
    (hsecond : secondByte? b.toNat = some (low, high, more)) (hlow : low ≤ 0x80 + n % 64)
    (hhigh : 0x80 + n % 64 ≤ high) (bs : List UInt8) :
    decodeFirst b (continuation n :: bs) =
      ((decodeMore (firstBits b.toNat more * 64 + n % 64) more bs).1,
        (decodeMore (firstBits b.toNat more * 64 + n % 64) more bs).2 + 1) := by
  have hn := toNat_continuation n
  unfold decodeFirst
  simp only [if_neg (Nat.not_lt.2 hb), hsecond]
  rw [hn, if_pos ⟨hlow, hhigh⟩, Nat.add_sub_cancel_left]
  rfl

theorem secondByte?_three {n : Nat} (h : 0x800 ≤ n) (h' : n < 0x10000)
    (hsurrogate : n < 0xd800 ∨ 0xdfff < n) : ∃ low high,
    secondByte? (0xe0 + n / 4096) = some (low, high, 1) ∧ low ≤ 0x80 + n / 64 % 64 ∧
      0x80 + n / 64 % 64 ≤ high := by
  unfold secondByte?
  by_cases he0 : 0xe0 + n / 4096 = 0xe0
  · exact ⟨0xa0, 0xbf, by rw [if_neg (by omega), if_pos he0], by omega, by omega⟩
  · by_cases hed : 0xe0 + n / 4096 = 0xed
    · exact ⟨0x80, 0x9f, by rw [if_neg (by omega), if_neg he0, if_pos hed], by omega, by omega⟩
    · exact ⟨0x80, 0xbf, by rw [if_neg (by omega), if_neg he0, if_neg hed, if_pos (by omega)],
        by omega, by omega⟩

theorem secondByte?_four {n : Nat} (h : 0x10000 ≤ n) (h' : n < 0x110000) : ∃ low high,
    secondByte? (0xf0 + n / 262144) = some (low, high, 2) ∧ low ≤ 0x80 + n / 4096 % 64 ∧
      0x80 + n / 4096 % 64 ≤ high := by
  have hskip : secondByte? (0xf0 + n / 262144) =
      if 0xf0 + n / 262144 = 0xf0 then some (0x90, 0xbf, 2)
      else if 0xf1 ≤ 0xf0 + n / 262144 ∧ 0xf0 + n / 262144 ≤ 0xf3 then some (0x80, 0xbf, 2)
      else if 0xf0 + n / 262144 = 0xf4 then some (0x80, 0x8f, 2) else none := by
    unfold secondByte?
    rw [if_neg (by omega), if_neg (by omega), if_neg (by omega), if_neg (by omega)]
  rw [hskip]
  by_cases hf0 : 0xf0 + n / 262144 = 0xf0
  · exact ⟨0x90, 0xbf, if_pos hf0, by omega, by omega⟩
  · by_cases hf4 : 0xf0 + n / 262144 = 0xf4
    · exact ⟨0x80, 0x8f, by rw [if_neg hf0, if_neg (by omega), if_pos hf4], by omega, by omega⟩
    · exact ⟨0x80, 0xbf, by rw [if_neg hf0, if_pos (by omega)], by omega, by omega⟩

/-- The bytes of a character are read as that character, whatever follows them. -/
theorem decodeFirst_encodeChar (c : Char) (bs : List UInt8) : ∃ b cs, encodeChar c = b :: cs ∧
    decodeFirst b (cs ++ bs) = (some c.toNat, cs.length) := by
  have hvalid : c.toNat < 0x110000 ∧ (c.toNat < 0xd800 ∨ 0xdfff < c.toNat) := by
    have hvalid := c.valid
    have hval : c.val.toNat = c.toNat := rfl
    simp only [UInt32.isValidChar, Nat.isValidChar] at hvalid
    omega
  generalize hn : c.toNat = n at hvalid
  obtain ⟨hlt, hsurrogate⟩ := hvalid
  unfold encodeChar
  simp only [hn]
  by_cases h1 : n < 0x80
  · have hb : (UInt8.ofNat n).toNat = n := toNat_ofNat_byte (by omega)
    refine ⟨_, [], if_pos h1, ?_⟩
    unfold decodeFirst
    rw [hb, if_pos h1]
    rfl
  by_cases h2 : n < 0x800
  · have hb : (UInt8.ofNat (0xc0 + n / 64)).toNat = 0xc0 + n / 64 := toNat_ofNat_byte (by omega)
    refine ⟨_, [continuation n], by rw [if_neg h1, if_pos h2], ?_⟩
    have hsecond : secondByte? (UInt8.ofNat (0xc0 + n / 64)).toNat = some (0x80, 0xbf, 0) := by
      rw [hb]
      exact if_pos (by omega)
    have hbits : firstBits (0xc0 + n / 64) 0 * 64 + n % 64 = n := by
      rw [show firstBits (0xc0 + n / 64) 0 = (0xc0 + n / 64) % 32 from rfl]
      omega
    rw [List.singleton_append, decodeFirst_continuation (by omega) hsecond (by omega) (by omega), hb,
      hbits]
    rfl
  by_cases h3 : n < 0x10000
  · have hb : (UInt8.ofNat (0xe0 + n / 4096)).toNat = 0xe0 + n / 4096 :=
      toNat_ofNat_byte (by omega)
    refine ⟨_, [continuation (n / 64), continuation n],
      by rw [if_neg h1, if_neg h2, if_pos h3], ?_⟩
    obtain ⟨low, high, hsecond, hlow, hhigh⟩ := secondByte?_three (by omega) h3 hsurrogate
    have hbits : (firstBits (0xe0 + n / 4096) 1 * 64 + n / 64 % 64) * 64 + n % 64 = n := by
      rw [show firstBits (0xe0 + n / 4096) 1 = (0xe0 + n / 4096) % 16 from rfl]
      omega
    rw [List.cons_append, List.singleton_append,
      decodeFirst_continuation (by omega) (by rw [hb]; exact hsecond) hlow hhigh, hb,
      decodeMore_continuation, hbits]
    rfl
  · have hb : (UInt8.ofNat (0xf0 + n / 262144)).toNat = 0xf0 + n / 262144 :=
      toNat_ofNat_byte (by omega)
    refine ⟨_, [continuation (n / 4096), continuation (n / 64), continuation n],
      by rw [if_neg h1, if_neg h2, if_neg h3], ?_⟩
    obtain ⟨low, high, hsecond, hlow, hhigh⟩ := secondByte?_four (by omega) hlt
    have hbits : ((firstBits (0xf0 + n / 262144) 2 * 64 + n / 4096 % 64) * 64 + n / 64 % 64) * 64 +
        n % 64 = n := by
      rw [show firstBits (0xf0 + n / 262144) 2 = (0xf0 + n / 262144) % 8 from rfl]
      omega
    rw [List.cons_append, List.cons_append, List.singleton_append,
      decodeFirst_continuation (by omega) (by rw [hb]; exact hsecond) hlow hhigh, hb,
      decodeMore_continuation, decodeMore_continuation, hbits]
    rfl

theorem decodeParts_encode (t : Text) : decodeParts (encode t) = t.map some := by
  induction t with
  | nil => rw [encode, List.flatMap_nil, decodeParts]; rfl
  | cons c t ih =>
    obtain ⟨b, cs, hchar, hfirst⟩ := decodeFirst_encodeChar c (encode t)
    have hencode : encode (c :: t) = b :: (cs ++ encode t) := by
      rw [encode, List.flatMap_cons, hchar]
      rfl
    rw [hencode, decodeParts]
    simp only [hfirst, List.drop_left, ih, Option.map_some, Char.ofNat_toNat, List.map_cons]

theorem decode_encode (t : Text) : decode (encode t) = t := by
  rw [decode, decodeParts_encode, List.map_map]
  exact List.map_id t

end QuickFix.Text
