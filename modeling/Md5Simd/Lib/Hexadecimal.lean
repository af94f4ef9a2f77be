import Mathlib

/-!
# Hexadecimal text

Text is a list of ASCII bytes. `hexDecode` reads it as digits, the high one of
each byte first, in either case; `lowerHex` is the lowercase text of a list of
bytes. Each undoes the other: `hexDecode_lowerHex` for every list of bytes,
`lowerHex_of_hexDecode` for every lowercase text that decodes.
-/

namespace Lib

/-- `0`-`9` or `a`-`f`. -/
def IsLowerHex (c : BitVec 8) : Prop :=
  (0x30 ≤ c.toNat ∧ c.toNat ≤ 0x39) ∨ (0x61 ≤ c.toNat ∧ c.toNat ≤ 0x66)

/-- The lowercase digit of a value. -/
def lowerDigit (d : Fin 16) : BitVec 8 :=
  if d.val < 10 then BitVec.ofNat 8 (0x30 + d.val) else BitVec.ofNat 8 (0x61 + (d.val - 10))

/-- The value of a digit in either case. -/
def digitValue (c : BitVec 8) : Option (Fin 16) :=
  if h : 0x30 ≤ c.toNat ∧ c.toNat ≤ 0x39 then some ⟨c.toNat - 0x30, by omega⟩
  else if h : 0x61 ≤ c.toNat ∧ c.toNat ≤ 0x66 then some ⟨c.toNat - 0x61 + 10, by omega⟩
  else if h : 0x41 ≤ c.toNat ∧ c.toNat ≤ 0x46 then some ⟨c.toNat - 0x41 + 10, by omega⟩
  else none

def highNibble (b : BitVec 8) : Fin 16 := ⟨b.toNat / 16, by omega⟩

def lowNibble (b : BitVec 8) : Fin 16 := ⟨b.toNat % 16, by omega⟩

def ofNibbles (hi lo : Fin 16) : BitVec 8 := BitVec.ofNat 8 (16 * hi.val + lo.val)

/-- The bytes of a hexadecimal text, if it is one. -/
def hexDecode : List (BitVec 8) → Option (List (BitVec 8))
  | [] => some []
  | [_] => none
  | c :: d :: text => do
    let hi ← digitValue c
    let lo ← digitValue d
    let bytes ← hexDecode text
    return ofNibbles hi lo :: bytes

/-- The lowercase text of a list of bytes. -/
def lowerHex (bytes : List (BitVec 8)) : List (BitVec 8) :=
  bytes.flatMap fun b => [lowerDigit (highNibble b), lowerDigit (lowNibble b)]

-- `2aFf`
example : hexDecode [0x32, 0x61, 0x46, 0x66] = some [0x2a, 0xff] := by decide

/-! ## One digit -/

theorem digitValue_lowerDigit : ∀ d : Fin 16, digitValue (lowerDigit d) = some d := by decide

theorem isLowerHex_lowerDigit : ∀ d : Fin 16, IsLowerHex (lowerDigit d) := by
  unfold IsLowerHex
  decide

theorem lowerDigit_digitValue {c : BitVec 8} {d : Fin 16} (hc : IsLowerHex c)
    (h : digitValue c = some d) : lowerDigit d = c := by
  have hval : d.val = if c.toNat ≤ 0x39 then c.toNat - 0x30 else c.toNat - 0x61 + 10 := by
    unfold digitValue at h
    rcases hc with hc | hc
    · rw [dif_pos hc] at h
      cases h
      exact (if_pos hc.2).symm
    · rw [dif_neg (by omega), dif_pos hc] at h
      cases h
      exact (if_neg (by omega)).symm
  apply BitVec.eq_of_toNat_eq
  unfold lowerDigit
  rcases hc with hc | hc
  · rw [if_pos hc.2] at hval
    rw [if_pos (by omega), BitVec.toNat_ofNat]
    omega
  · rw [if_neg (by omega)] at hval
    rw [if_neg (by omega), BitVec.toNat_ofNat]
    omega

theorem ofNibbles_nibbles (b : BitVec 8) : ofNibbles (highNibble b) (lowNibble b) = b := by
  apply BitVec.eq_of_toNat_eq
  have hdigits : 16 * (b.toNat / 16) + b.toNat % 16 = b.toNat := Nat.div_add_mod b.toNat 16
  rw [ofNibbles, BitVec.toNat_ofNat, highNibble, lowNibble, hdigits, Nat.mod_eq_of_lt b.isLt]

theorem toNat_ofNibbles (hi lo : Fin 16) : (ofNibbles hi lo).toNat = 16 * hi.val + lo.val := by
  rw [ofNibbles, BitVec.toNat_ofNat]
  omega

theorem highNibble_ofNibbles (hi lo : Fin 16) : highNibble (ofNibbles hi lo) = hi := by
  apply Fin.ext
  show (ofNibbles hi lo).toNat / 16 = hi.val
  rw [toNat_ofNibbles]
  omega

theorem lowNibble_ofNibbles (hi lo : Fin 16) : lowNibble (ofNibbles hi lo) = lo := by
  apply Fin.ext
  show (ofNibbles hi lo).toNat % 16 = lo.val
  rw [toNat_ofNibbles]
  omega

/-! ## Texts -/

theorem lowerHex_cons (b : BitVec 8) (bytes : List (BitVec 8)) :
    lowerHex (b :: bytes) =
      lowerDigit (highNibble b) :: lowerDigit (lowNibble b) :: lowerHex bytes := rfl

theorem hexDecode_lowerHex (bytes : List (BitVec 8)) : hexDecode (lowerHex bytes) = some bytes := by
  induction bytes with
  | nil => rfl
  | cons b bytes ih =>
    rw [lowerHex_cons, hexDecode, digitValue_lowerDigit, digitValue_lowerDigit, ih]
    show some (ofNibbles (highNibble b) (lowNibble b) :: bytes) = _
    rw [ofNibbles_nibbles]

theorem lowerHex_of_hexDecode (text : List (BitVec 8)) {bytes : List (BitVec 8)}
    (hlower : ∀ c ∈ text, IsLowerHex c) (h : hexDecode text = some bytes) :
    lowerHex bytes = text := by
  induction text using hexDecode.induct generalizing bytes with
  | case1 =>
    cases h
    rfl
  | case2 c => cases h
  | case3 c d text ih =>
    simp only [hexDecode, Option.bind_eq_bind, Option.bind_eq_some_iff, Option.pure_def,
      Option.some.injEq] at h
    obtain ⟨hi, hhi, lo, hlo, rest, hrest, rfl⟩ := h
    have hc := lowerDigit_digitValue (hlower c (by simp)) hhi
    have hd := lowerDigit_digitValue (hlower d (by simp)) hlo
    have htext := ih (fun e he => hlower e (by simp [he])) hrest
    rw [lowerHex_cons, highNibble_ofNibbles, lowNibble_ofNibbles, hc, hd, htext]

theorem isLowerHex_of_mem {bytes : List (BitVec 8)} {c : BitVec 8} (h : c ∈ lowerHex bytes) :
    IsLowerHex c := by
  simp only [lowerHex, List.mem_flatMap, List.mem_cons, List.not_mem_nil, or_false] at h
  obtain ⟨b, -, rfl | rfl⟩ := h
  · exact isLowerHex_lowerDigit _
  · exact isLowerHex_lowerDigit _

/-! ## UTF-8 -/

/-- The bytes are the UTF-8 encoding of a string. -/
def IsUtf8 (text : List (BitVec 8)) : Prop :=
  ByteArray.IsValidUTF8 (text.map UInt8.ofBitVec).toByteArray

/-- An ASCII byte is the encoding of one character. -/
theorem utf8EncodeChar_ascii : ∀ c : BitVec 8, c.toNat < 128 →
    String.utf8EncodeChar (Char.ofNat c.toNat) = [UInt8.ofBitVec c] := by
  decide +kernel

theorem isUtf8_of_ascii {text : List (BitVec 8)} (h : ∀ c ∈ text, c.toNat < 128) : IsUtf8 text := by
  refine ⟨text.map fun c => Char.ofNat c.toNat, congrArg List.toByteArray ?_⟩
  induction text with
  | nil => rfl
  | cons c text ih =>
    rw [List.map_cons, List.map_cons, List.flatMap_cons, utf8EncodeChar_ascii c (h c (by simp)),
      ← ih fun d hd => h d (by simp [hd])]
    rfl

end Lib
