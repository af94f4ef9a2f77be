import Mathlib

/-!
# RFC 1321

MD5 as the RFC states it, on messages of bits. Nothing here is shared with the
code's tables: `T` is the sine function, the word index and the shift of a
round are the RFC's formulas, padding counts bits, and the registers move as in
the RFC's `[ABCD k s i]`, `[DABC k s i]`, ... notation.
-/

namespace Rfc1321

/-! ## Bits, bytes and words (section 2) -/

abbrev Word := BitVec 32

/-- The bits of a byte, high-order bit first. -/
def bitsOfByte (b : BitVec 8) : List Bool := List.ofFn fun j : Fin 8 => b.getMsbD j

/-- A byte string as a string of bits. -/
def bitsOf (bytes : List (BitVec 8)) : List Bool := bytes.flatMap bitsOfByte

/-- Byte `j` of a bit string, high-order bit first. -/
def byteAt (m : List Bool) (j : Nat) : BitVec 8 :=
  BitVec.ofNat 8 ((List.range 8).foldl (fun n i => 2 * n + (m.getD (8 * j + i) false).toNat) 0)

/-- Word `w` of a bit string, low-order byte first. -/
def wordAt (m : List Bool) (w : Nat) : Word :=
  byteAt m (4 * w + 3) ++ byteAt m (4 * w + 2) ++ byteAt m (4 * w + 1) ++ byteAt m (4 * w)

/-- The `n` low-order bytes of a number, low-order byte first. -/
def lowBytes (n x : Nat) : List (BitVec 8) := (List.range n).map fun i => BitVec.ofNat 8 (x / 256 ^ i)

/-! ## Padding (sections 3.1 and 3.2) -/

/-- The number of `0` bits that, after the `1` bit, makes `b` bits congruent to 448 modulo 512. -/
def zeroBits (b : Nat) : Nat := (959 - b % 512) % 512

/-- A single `1` bit, `0` bits up to 448 modulo 512, and the low-order 64 bits of the length. -/
def pad (m : List Bool) : List Bool :=
  m ++ true :: (List.replicate (zeroBits m.length) false ++ bitsOf (lowBytes 8 m.length))

/-! ## The round functions (section 3.4) -/

def F (X Y Z : Word) : Word := (X &&& Y) ||| (~~~X &&& Z)

def G (X Y Z : Word) : Word := (X &&& Z) ||| (Y &&& ~~~Z)

def H (X Y Z : Word) : Word := X ^^^ Y ^^^ Z

def I (X Y Z : Word) : Word := Y ^^^ (X ||| ~~~Z)

/-- `T[i]`: the integer part of `4294967296 * abs(sin(i))`, `i` in radians. -/
noncomputable def T (i : Nat) : Word := BitVec.ofNat 32 ⌊4294967296 * |Real.sin i|⌋₊

/-- The function of step `i`, counted from 0. -/
def func (i : Nat) : Word → Word → Word → Word :=
  if i < 16 then F else if i < 32 then G else if i < 48 then H else I

/-- The index `k` of the message word of step `i`. -/
def wordIndex (i : Nat) : Nat :=
  if i < 16 then i % 16 else if i < 32 then (1 + 5 * i) % 16
  else if i < 48 then (5 + 3 * i) % 16 else 7 * i % 16

/-- The shift `s` of step `i`. -/
def shift (i : Nat) : Nat :=
  (if i < 16 then [7, 12, 17, 22] else if i < 32 then [5, 9, 14, 20]
    else if i < 48 then [4, 11, 16, 23] else [6, 10, 15, 21]).getD (i % 4) 0

/-- The four-word buffer. -/
structure Buffer where
  A : Word
  B : Word
  C : Word
  D : Word
  deriving DecidableEq

/-- Step `i` on `[abcd]`: `a = b + ((a + f(b,c,d) + X[k] + T[i]) <<< s)`, after which `d` is the
register the next step rewrites. -/
noncomputable def step (X : Nat → Word) (r : Buffer) (i : Nat) : Buffer :=
  ⟨r.D, r.B + (r.A + func i r.B r.C r.D + X (wordIndex i) + T (i + 1)).rotateLeft (shift i), r.B, r.C⟩

/-- Process one block of sixteen words. -/
noncomputable def process (X : Nat → Word) (r : Buffer) : Buffer :=
  let r' := (List.range 64).foldl (step X) r
  ⟨r.A + r'.A, r.B + r'.B, r.C + r'.C, r.D + r'.D⟩

/-! ## Initialization, all blocks, output (sections 3.3 to 3.5) -/

/-- A word from four bytes in hexadecimal, low-order byte first. -/
def leWord (b0 b1 b2 b3 : BitVec 8) : Word := b3 ++ b2 ++ b1 ++ b0

def init : Buffer :=
  ⟨leWord 0x01 0x23 0x45 0x67, leWord 0x89 0xab 0xcd 0xef, leWord 0xfe 0xdc 0xba 0x98,
    leWord 0x76 0x54 0x32 0x10⟩

/-- The buffer after every block of a padded message. -/
noncomputable def digestBuffer (m : List Bool) : Buffer :=
  (List.range (m.length / 512)).foldl (fun r n => process (fun k => wordAt m (16 * n + k)) r) init

/-- `A`, `B`, `C`, `D`, from the low-order byte of `A` to the high-order byte of `D`. -/
def output (r : Buffer) : List (BitVec 8) :=
  [r.A, r.B, r.C, r.D].flatMap fun w => lowBytes 4 w.toNat

/-- MD5 of a string of bits. -/
noncomputable def md5Bits (m : List Bool) : List (BitVec 8) := output (digestBuffer (pad m))

/-- MD5 of a string of bytes. -/
noncomputable def md5 (bytes : List (BitVec 8)) : List (BitVec 8) := md5Bits (bitsOf bytes)

/-! ## Facts about the reference -/

@[simp] theorem length_bitsOfByte (b : BitVec 8) : (bitsOfByte b).length = 8 := List.length_ofFn

@[simp] theorem length_bitsOf (bytes : List (BitVec 8)) :
    (bitsOf bytes).length = 8 * bytes.length := by
  induction bytes with
  | nil => rfl
  | cons b bytes ih => simp only [bitsOf, List.flatMap_cons, List.length_append] at ih ⊢; simp [ih]; omega

theorem bitsOf_append (a b : List (BitVec 8)) : bitsOf (a ++ b) = bitsOf a ++ bitsOf b :=
  List.flatMap_append

@[simp] theorem length_lowBytes (n x : Nat) : (lowBytes n x).length = n := by simp [lowBytes]

/-- Padding extends to 448 modulo 512 by the fewest bits. -/
theorem zeroBits_spec (b : Nat) :
    (b + 1 + zeroBits b) % 512 = 448 ∧ ∀ z, (b + 1 + z) % 512 = 448 → zeroBits b ≤ z := by
  unfold zeroBits
  exact ⟨by omega, fun z hz => by omega⟩

theorem getD_bitsOfByte (b : BitVec 8) {i : Nat} (h : i < 8) :
    (bitsOfByte b).getD i false = b.getMsbD i := by
  rw [List.getD_eq_getElem _ _ (by simpa using h)]
  exact List.getElem_ofFn ..

theorem getD_bitsOf (bytes : List (BitVec 8)) {j i : Nat} (hj : j < bytes.length) (hi : i < 8) :
    (bitsOf bytes).getD (8 * j + i) false = bytes[j].getMsbD i := by
  induction bytes generalizing j with
  | nil => cases hj
  | cons b bytes ih =>
    rw [bitsOf, List.flatMap_cons]
    rcases j with _ | j
    · rw [List.getD_append _ _ _ _ (by simp; omega), Nat.mul_zero, Nat.zero_add, getD_bitsOfByte _ hi]
      rfl
    · rw [List.getD_append_right _ _ _ _ (by simp; omega), length_bitsOfByte,
        show 8 * (j + 1) + i - 8 = 8 * j + i by omega]
      exact ih (by simpa using hj)

theorem ofNat_getMsbD (b : BitVec 8) :
    BitVec.ofNat 8 ((List.range 8).foldl (fun n i => 2 * n + (b.getMsbD i).toNat) 0) = b := by
  revert b; decide +kernel

theorem byteAt_bitsOf (bytes : List (BitVec 8)) {j : Nat} (hj : j < bytes.length) :
    byteAt (bitsOf bytes) j = bytes[j] := by
  have h : ∀ i < 8, ((bitsOf bytes).getD (8 * j + i) false).toNat = (bytes[j].getMsbD i).toNat :=
    fun i hi => congrArg Bool.toNat (getD_bitsOf bytes hj hi)
  rw [byteAt, ← ofNat_getMsbD bytes[j]]
  congr 1
  exact List.foldl_ext _ _ _ fun n i hi => by rw [h i (List.mem_range.mp hi)]

end Rfc1321
