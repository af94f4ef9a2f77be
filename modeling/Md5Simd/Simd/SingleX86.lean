import Md5Simd.Lib.X86
import Md5Simd.Compress

/-!
# The x86-64 kernel

`simd/single_x86.rs`: the two `asm!` blocks of the vendored kernel of x86-64, one
entry for each instruction of the source, over their operands. An `Entry` is what
the compiler chooses for a block: a register for each operand, and whatever else
the registers hold.

The schedule loads one round ahead. When a round starts, its message word is
already in `A` and `t1` is a copy of `D` (`Ready`); the round loads the next word
into `D`, which is the next round's `A`. Written under the operands of the first
round every round is one of four pieces of code, and the registers are a ring: the
step on the locals is `Regs.shift`, one `Lib.shiftStep`. `transform_run` is the whole
kernel, `asm_contract` what the blocks read and write.
-/

namespace Md5Simd

open Lib Lib.X86

/-- `(a, b, c, d)` becomes `(d, a', b, c)`. -/
def Regs.shift (m : Words) (k : Fin 64) (r : Regs) : Regs :=
  ⟨r.d, roundFn prodMix m k r.a r.b r.c r.d, r.b, r.c⟩

namespace SingleX86

/-- The operands of the `asm!` blocks. -/
inductive Operand where
  | a | b | c | d | t1 | t2 | m
  deriving DecidableEq

abbrev Code := List (Instr Operand)

def konst (i : Fin 64) : Src Operand := .imm K[i]

section Blocks

open Operand

/-- `A += input[0]`, and the rolling copy of `C` starts as `D`. -/
def preamble : Code :=
  [ .add a (.dword m 0), .mov t1 d ]

/-- The sixteen F rounds. -/
def roundsF : Code :=
  [ .xor t1 c, .add a (konst 0), .and t1 b, .xor t1 d, .add d (.dword m 4),
    .add a t1, .rol a 7, .mov t1 c, .add a b,
    .xor t1 b, .add d (konst 1), .and t1 a, .xor t1 c, .add c (.dword m 8),
    .add d t1, .rol d 12, .mov t1 b, .add d a,
    .xor t1 a, .add c (konst 2), .and t1 d, .xor t1 b, .add b (.dword m 12),
    .add c t1, .rol c 17, .mov t1 a, .add c d,
    .xor t1 d, .add b (konst 3), .and t1 c, .xor t1 a, .add a (.dword m 16),
    .add b t1, .rol b 22, .mov t1 d, .add b c,
    .xor t1 c, .add a (konst 4), .and t1 b, .xor t1 d, .add d (.dword m 20),
    .add a t1, .rol a 7, .mov t1 c, .add a b,
    .xor t1 b, .add d (konst 5), .and t1 a, .xor t1 c, .add c (.dword m 24),
    .add d t1, .rol d 12, .mov t1 b, .add d a,
    .xor t1 a, .add c (konst 6), .and t1 d, .xor t1 b, .add b (.dword m 28),
    .add c t1, .rol c 17, .mov t1 a, .add c d,
    .xor t1 d, .add b (konst 7), .and t1 c, .xor t1 a, .add a (.dword m 32),
    .add b t1, .rol b 22, .mov t1 d, .add b c,
    .xor t1 c, .add a (konst 8), .and t1 b, .xor t1 d, .add d (.dword m 36),
    .add a t1, .rol a 7, .mov t1 c, .add a b,
    .xor t1 b, .add d (konst 9), .and t1 a, .xor t1 c, .add c (.dword m 40),
    .add d t1, .rol d 12, .mov t1 b, .add d a,
    .xor t1 a, .add c (konst 10), .and t1 d, .xor t1 b, .add b (.dword m 44),
    .add c t1, .rol c 17, .mov t1 a, .add c d,
    .xor t1 d, .add b (konst 11), .and t1 c, .xor t1 a, .add a (.dword m 48),
    .add b t1, .rol b 22, .mov t1 d, .add b c,
    .xor t1 c, .add a (konst 12), .and t1 b, .xor t1 d, .add d (.dword m 52),
    .add a t1, .rol a 7, .mov t1 c, .add a b,
    .xor t1 b, .add d (konst 13), .and t1 a, .xor t1 c, .add c (.dword m 56),
    .add d t1, .rol d 12, .mov t1 b, .add d a,
    .xor t1 a, .add c (konst 14), .and t1 d, .xor t1 b, .add b (.dword m 60),
    .add c t1, .rol c 17, .mov t1 a, .add c d,
    .xor t1 d, .add b (konst 15), .and t1 c, .xor t1 a, .add a (.dword m 4),
    .add b t1, .rol b 22, .mov t1 d, .add b c ]

/-- The sixteen G rounds. -/
def roundsG : Code :=
  [ .not t1, .add a (konst 16), .and t1 c, .mov t2 d, .add d (.dword m 24),
    .add a t1, .and t2 b, .add a t2, .rol a 5, .mov t1 c, .add a b,
    .not t1, .add d (konst 17), .and t1 b, .mov t2 c, .add c (.dword m 44),
    .add d t1, .and t2 a, .add d t2, .rol d 9, .mov t1 b, .add d a,
    .not t1, .add c (konst 18), .and t1 a, .mov t2 b, .add b (.dword m 0),
    .add c t1, .and t2 d, .add c t2, .rol c 14, .mov t1 a, .add c d,
    .not t1, .add b (konst 19), .and t1 d, .mov t2 a, .add a (.dword m 20),
    .add b t1, .and t2 c, .add b t2, .rol b 20, .mov t1 d, .add b c,
    .not t1, .add a (konst 20), .and t1 c, .mov t2 d, .add d (.dword m 40),
    .add a t1, .and t2 b, .add a t2, .rol a 5, .mov t1 c, .add a b,
    .not t1, .add d (konst 21), .and t1 b, .mov t2 c, .add c (.dword m 60),
    .add d t1, .and t2 a, .add d t2, .rol d 9, .mov t1 b, .add d a,
    .not t1, .add c (konst 22), .and t1 a, .mov t2 b, .add b (.dword m 16),
    .add c t1, .and t2 d, .add c t2, .rol c 14, .mov t1 a, .add c d,
    .not t1, .add b (konst 23), .and t1 d, .mov t2 a, .add a (.dword m 36),
    .add b t1, .and t2 c, .add b t2, .rol b 20, .mov t1 d, .add b c,
    .not t1, .add a (konst 24), .and t1 c, .mov t2 d, .add d (.dword m 56),
    .add a t1, .and t2 b, .add a t2, .rol a 5, .mov t1 c, .add a b,
    .not t1, .add d (konst 25), .and t1 b, .mov t2 c, .add c (.dword m 12),
    .add d t1, .and t2 a, .add d t2, .rol d 9, .mov t1 b, .add d a,
    .not t1, .add c (konst 26), .and t1 a, .mov t2 b, .add b (.dword m 32),
    .add c t1, .and t2 d, .add c t2, .rol c 14, .mov t1 a, .add c d,
    .not t1, .add b (konst 27), .and t1 d, .mov t2 a, .add a (.dword m 52),
    .add b t1, .and t2 c, .add b t2, .rol b 20, .mov t1 d, .add b c,
    .not t1, .add a (konst 28), .and t1 c, .mov t2 d, .add d (.dword m 8),
    .add a t1, .and t2 b, .add a t2, .rol a 5, .mov t1 c, .add a b,
    .not t1, .add d (konst 29), .and t1 b, .mov t2 c, .add c (.dword m 28),
    .add d t1, .and t2 a, .add d t2, .rol d 9, .mov t1 b, .add d a,
    .not t1, .add c (konst 30), .and t1 a, .mov t2 b, .add b (.dword m 48),
    .add c t1, .and t2 d, .add c t2, .rol c 14, .mov t1 a, .add c d,
    .not t1, .add b (konst 31), .and t1 d, .mov t2 a, .add a (.dword m 20),
    .add b t1, .and t2 c, .add b t2, .rol b 20, .mov t1 d, .add b c ]

/-- The sixteen H rounds. -/
def roundsH : Code :=
  [ .xor t1 c, .add a (konst 32), .add d (.dword m 32),
    .xor t1 b, .add a t1, .rol a 4, .mov t1 c, .add a b,
    .xor t1 b, .add d (konst 33), .add c (.dword m 44),
    .xor t1 a, .add d t1, .rol d 11, .mov t1 b, .add d a,
    .xor t1 a, .add c (konst 34), .add b (.dword m 56),
    .xor t1 d, .add c t1, .rol c 16, .mov t1 a, .add c d,
    .xor t1 d, .add b (konst 35), .add a (.dword m 4),
    .xor t1 c, .add b t1, .rol b 23, .mov t1 d, .add b c,
    .xor t1 c, .add a (konst 36), .add d (.dword m 16),
    .xor t1 b, .add a t1, .rol a 4, .mov t1 c, .add a b,
    .xor t1 b, .add d (konst 37), .add c (.dword m 28),
    .xor t1 a, .add d t1, .rol d 11, .mov t1 b, .add d a,
    .xor t1 a, .add c (konst 38), .add b (.dword m 40),
    .xor t1 d, .add c t1, .rol c 16, .mov t1 a, .add c d,
    .xor t1 d, .add b (konst 39), .add a (.dword m 52),
    .xor t1 c, .add b t1, .rol b 23, .mov t1 d, .add b c,
    .xor t1 c, .add a (konst 40), .add d (.dword m 0),
    .xor t1 b, .add a t1, .rol a 4, .mov t1 c, .add a b,
    .xor t1 b, .add d (konst 41), .add c (.dword m 12),
    .xor t1 a, .add d t1, .rol d 11, .mov t1 b, .add d a,
    .xor t1 a, .add c (konst 42), .add b (.dword m 24),
    .xor t1 d, .add c t1, .rol c 16, .mov t1 a, .add c d,
    .xor t1 d, .add b (konst 43), .add a (.dword m 36),
    .xor t1 c, .add b t1, .rol b 23, .mov t1 d, .add b c,
    .xor t1 c, .add a (konst 44), .add d (.dword m 48),
    .xor t1 b, .add a t1, .rol a 4, .mov t1 c, .add a b,
    .xor t1 b, .add d (konst 45), .add c (.dword m 60),
    .xor t1 a, .add d t1, .rol d 11, .mov t1 b, .add d a,
    .xor t1 a, .add c (konst 46), .add b (.dword m 8),
    .xor t1 d, .add c t1, .rol c 16, .mov t1 a, .add c d,
    .xor t1 d, .add b (konst 47), .add a (.dword m 0),
    .xor t1 c, .add b t1, .rol b 23, .mov t1 d, .add b c ]

/-- The sixteen I rounds; the last one has nothing to load and no copy to make. -/
def roundsI : Code :=
  [ .not t1, .add a (konst 48), .add d (.dword m 28),
    .or t1 b, .xor t1 c, .add a t1, .rol a 6, .mov t1 c, .add a b,
    .not t1, .add d (konst 49), .add c (.dword m 56),
    .or t1 a, .xor t1 b, .add d t1, .rol d 10, .mov t1 b, .add d a,
    .not t1, .add c (konst 50), .add b (.dword m 20),
    .or t1 d, .xor t1 a, .add c t1, .rol c 15, .mov t1 a, .add c d,
    .not t1, .add b (konst 51), .add a (.dword m 48),
    .or t1 c, .xor t1 d, .add b t1, .rol b 21, .mov t1 d, .add b c,
    .not t1, .add a (konst 52), .add d (.dword m 12),
    .or t1 b, .xor t1 c, .add a t1, .rol a 6, .mov t1 c, .add a b,
    .not t1, .add d (konst 53), .add c (.dword m 40),
    .or t1 a, .xor t1 b, .add d t1, .rol d 10, .mov t1 b, .add d a,
    .not t1, .add c (konst 54), .add b (.dword m 4),
    .or t1 d, .xor t1 a, .add c t1, .rol c 15, .mov t1 a, .add c d,
    .not t1, .add b (konst 55), .add a (.dword m 32),
    .or t1 c, .xor t1 d, .add b t1, .rol b 21, .mov t1 d, .add b c,
    .not t1, .add a (konst 56), .add d (.dword m 60),
    .or t1 b, .xor t1 c, .add a t1, .rol a 6, .mov t1 c, .add a b,
    .not t1, .add d (konst 57), .add c (.dword m 24),
    .or t1 a, .xor t1 b, .add d t1, .rol d 10, .mov t1 b, .add d a,
    .not t1, .add c (konst 58), .add b (.dword m 52),
    .or t1 d, .xor t1 a, .add c t1, .rol c 15, .mov t1 a, .add c d,
    .not t1, .add b (konst 59), .add a (.dword m 16),
    .or t1 c, .xor t1 d, .add b t1, .rol b 21, .mov t1 d, .add b c,
    .not t1, .add a (konst 60), .add d (.dword m 44),
    .or t1 b, .xor t1 c, .add a t1, .rol a 6, .mov t1 c, .add a b,
    .not t1, .add d (konst 61), .add c (.dword m 8),
    .or t1 a, .xor t1 b, .add d t1, .rol d 10, .mov t1 b, .add d a,
    .not t1, .add c (konst 62), .add b (.dword m 36),
    .or t1 d, .xor t1 a, .add c t1, .rol c 15, .mov t1 a, .add c d,
    .not t1, .add b (konst 63), .or t1 c, .xor t1 d,
    .add b t1, .rol b 21, .add b c ]

/-! ## One round -/

/-- `ROUND_F(A, B, C, D, off, K, R)`. -/
def roundF (off : Nat) (k : Fin 64) : Code :=
  [ .xor t1 c, .add a (konst k), .and t1 b, .xor t1 d, .add d (.dword m off),
    .add a t1, .rol a S[k], .mov t1 c, .add a b ]

/-- `ROUND_G(A, B, C, D, off, K, R)`. -/
def roundG (off : Nat) (k : Fin 64) : Code :=
  [ .not t1, .add a (konst k), .and t1 c, .mov t2 d, .add d (.dword m off),
    .add a t1, .and t2 b, .add a t2, .rol a S[k], .mov t1 c, .add a b ]

/-- `ROUND_H(A, B, C, D, off, K, R)`. -/
def roundH (off : Nat) (k : Fin 64) : Code :=
  [ .xor t1 c, .add a (konst k), .add d (.dword m off),
    .xor t1 b, .add a t1, .rol a S[k], .mov t1 c, .add a b ]

/-- `ROUND_I(A, B, C, D, off, K, R)`. -/
def roundI (off : Nat) (k : Fin 64) : Code :=
  [ .not t1, .add a (konst k), .add d (.dword m off),
    .or t1 b, .xor t1 c, .add a t1, .rol a S[k], .mov t1 c, .add a b ]

/-- `ROUND_I` without the load and the copy. -/
def lastI (k : Fin 64) : Code :=
  [.not t1, .add a (konst k), .or t1 b, .xor t1 c, .add a t1, .rol a S[k], .add a b]

/-- The register at position `i` of the ring. -/
def slot : Fin 4 → Operand
  | 0 => a
  | 1 => b
  | 2 => c
  | 3 => d

/-- The operands of the round whose `A` is register `i`. -/
def seat (i : Fin 4) : Operand → Operand
  | a => slot i
  | b => slot (i + 1)
  | c => slot (i + 2)
  | d => slot (i + 3)
  | t1 => t1
  | t2 => t2
  | m => m

end Blocks

def block1 : Code := preamble ++ roundsF

def block2 : Code := roundsG ++ roundsH ++ roundsI

/-- Where the word of a round lies in the block. -/
def offset (k : Fin 64) : Nat := 4 * MSG[k].val

/-- A round under the operands of the first one; the word loaded is that of the next round. -/
def roundOf (k : Fin 64) : Code :=
  match k.val / 16 with
  | 0 => roundF (offset (k + 1)) k
  | 1 => roundG (offset (k + 1)) k
  | 2 => roundH (offset (k + 1)) k
  | _ => roundI (offset (k + 1)) k

def roundAt (k : Fin 64) : Code := (roundOf k).map (Instr.rename (seat (destOf k)))

/-- `n` rounds from round `k` on. -/
def roundsFrom (k : Fin 64) (n : Nat) : Code := (List.iterate (· + 1) k n).flatMap roundAt

theorem roundsF_eq : roundsF = roundsFrom 0 16 := by rfl

theorem roundsG_eq : roundsG = roundsFrom 16 16 := by rfl

theorem roundsH_eq : roundsH = roundsFrom 32 16 := by rfl

theorem roundsI_eq :
    roundsI = roundsFrom 48 15 ++ (lastI 63).map (Instr.rename (seat (destOf 63))) := by rfl

/-! ## The registers between two rounds -/

/-- A round on the locals `r` may start: its word `x` is in `A`, and `t1` is a copy of `D`. -/
structure Ready (base : BitVec 64) (r : Regs) (x : U32) (g : File Operand) : Prop where
  a : low g .a = r.a + x
  b : low g .b = r.b
  c : low g .c = r.c
  d : low g .d = r.d
  t1 : low g .t1 = r.d
  m : g .m = base

/-- The locals are in their registers. -/
structure Locals (r : Regs) (g : File Operand) : Prop where
  a : low g .a = r.a
  b : low g .b = r.b
  c : low g .c = r.c
  d : low g .d = r.d

variable {mem : Memory} {base : BitVec 64} {r : Regs} {x y : U32} {off : Nat}

/-- What a round that mixes with `f` leaves in its `A`, the word having come first. -/
theorem round_sum (a x k f b : U32) (n : Nat) :
    (a + x + k + f).rotateLeft n + b = b + (a + f + k + x).rotateLeft n := by
  rw [BitVec.add_comm, show a + x + k + f = a + f + k + x by ac_rfl]

theorem xor_mixF (b c d : U32) : (d ^^^ c) &&& b ^^^ d = mixF b c d := by
  rw [mixF, BitVec.xor_comm d c, BitVec.and_comm, BitVec.xor_comm]

/-- `GOpt`: the two terms of `mixG` are added one after the other. -/
theorem add_mixG (s b c d : U32) : s + (~~~d &&& c) + (d &&& b) = s + mixG b c d := by
  rw [mixG, BitVec.and_comm (~~~d), BitVec.and_comm d, BitVec.add_assoc, BitVec.add_comm (c &&& _)]

theorem xor_mixH (b c d : U32) : d ^^^ c ^^^ b = mixH b c d := by
  rw [mixH]; ac_rfl

theorem or_mixI (b c d : U32) : (~~~d ||| b) ^^^ c = mixI b c d := by
  rw [mixI, BitVec.xor_comm, BitVec.or_comm]

/-- The locals after a round whose `A` becomes `new`. -/
abbrev After (base : BitVec 64) (r : Regs) (new y : U32) (g : File Operand) : Prop :=
  Ready base ⟨r.d, new, r.b, r.c⟩ y (g ∘ seat 3)

section Rounds

variable (k : Fin 64) (hy : load mem (base + BitVec.ofNat 64 off) = .ok y)

include hy

theorem roundF_spec : Triple mem (Ready base r x) (roundF off k)
    (After base r (r.b + (r.a + mixF r.b r.c r.d + K[k] + x).rotateLeft S[k]) y) := by
  rintro g ⟨ha, hb, hc, hd, ht, hm⟩
  simp [roundF, konst, ha, hb, hc, hd, ht, hm, hy, Except.map, Except.bind]
  constructor <;> simp [seat, slot, hb, hc, hm, xor_mixF, round_sum]

theorem roundG_spec : Triple mem (Ready base r x) (roundG off k)
    (After base r (r.b + (r.a + mixG r.b r.c r.d + K[k] + x).rotateLeft S[k]) y) := by
  rintro g ⟨ha, hb, hc, hd, ht, hm⟩
  simp [roundG, konst, ha, hb, hc, hd, ht, hm, hy, Except.map, Except.bind]
  constructor <;> simp [seat, slot, hb, hc, hm, add_mixG, round_sum]

theorem roundH_spec : Triple mem (Ready base r x) (roundH off k)
    (After base r (r.b + (r.a + mixH r.b r.c r.d + K[k] + x).rotateLeft S[k]) y) := by
  rintro g ⟨ha, hb, hc, hd, ht, hm⟩
  simp [roundH, konst, ha, hb, hc, hd, ht, hm, hy, Except.map, Except.bind]
  constructor <;> simp [seat, slot, hb, hc, hm, xor_mixH, round_sum]

theorem roundI_spec : Triple mem (Ready base r x) (roundI off k)
    (After base r (r.b + (r.a + mixI r.b r.c r.d + K[k] + x).rotateLeft S[k]) y) := by
  rintro g ⟨ha, hb, hc, hd, ht, hm⟩
  simp [roundI, konst, ha, hb, hc, hd, ht, hm, hy, Except.map, Except.bind]
  constructor <;> simp [seat, slot, hb, hc, hm, or_mixI, round_sum]

end Rounds

theorem lastI_spec (k : Fin 64) : Triple mem (Ready base r x) (lastI k) (fun g =>
    Locals ⟨r.d, r.b + (r.a + mixI r.b r.c r.d + K[k] + x).rotateLeft S[k], r.b, r.c⟩ (g ∘ seat 3)) := by
  rintro g ⟨ha, hb, hc, hd, ht, hm⟩
  simp [lastI, konst, ha, hb, hc, ht, Except.map, Except.bind]
  constructor <;> simp [seat, slot, hb, hc, hd, or_mixI, round_sum]

/-! ## All rounds -/

theorem seat_injective (i : Fin 4) : Function.Injective (seat i) := by
  intro o p
  revert i
  cases o <;> cases p <;> decide

theorem seat_comp (i : Fin 4) : seat i ∘ seat 3 = seat (i + 3) := by
  funext o
  revert i
  cases o <;> decide

theorem destOf_succ : ∀ k : Fin 64, destOf (k + 1) = destOf k + 3 := by decide

/-- The message words lie in memory from `base` on. -/
def WordsAt (mem : Memory) (base : BitVec 64) (w : Words) : Prop :=
  ∀ k : Fin 64, load mem (base + BitVec.ofNat 64 (offset k)) = .ok w[MSG[k]]

/-- Round `k` may start on the locals `r`. -/
abbrev Before (base : BitVec 64) (w : Words) (k : Fin 64) (r : Regs) (g : File Operand) : Prop :=
  Ready base r w[MSG[k]] (g ∘ seat (destOf k))

/-- **One round** is one step on the locals. -/
theorem roundAt_spec {w : Words} (hw : WordsAt mem base w) (k : Fin 64) (r : Regs) :
    Triple mem (Before base w k r) (roundAt k) (Before base w (k + 1) (r.shift w k)) := by
  have hround : Triple mem (Ready base r w[MSG[k]]) (roundOf k)
      (After base r (roundFn prodMix w k r.a r.b r.c r.d) w[MSG[k + 1]]) := by
    have hy := hw (k + 1)
    unfold roundOf roundFn prodMix byRound stepVal
    rcases round_cases k with h | h | h | h <;> simp only [h]
    · exact roundF_spec k hy
    · exact roundG_spec k hy
    · exact roundH_spec k hy
    · exact roundI_spec k hy
  refine (hround.rename (seat_injective (destOf k))).mono (fun _ hg => hg) fun g hg => ?_
  rw [Before, destOf_succ, ← seat_comp]
  exact hg

theorem roundsFrom_add (k : Fin 64) (n n' : Nat) :
    roundsFrom k (n + n') = roundsFrom k n ++ roundsFrom ((· + 1)^[n] k) n' := by
  rw [roundsFrom, List.iterate_add, List.flatMap_append, ← roundsFrom, ← roundsFrom]

theorem block2_eq :
    block2 = roundsFrom 16 47 ++ (lastI 63).map (Instr.rename (seat (destOf 63))) := by
  have h32 : (· + 1)^[16] (16 : Fin 64) = 32 := rfl
  have h48 : (· + 1)^[16 + 16] (16 : Fin 64) = 48 := rfl
  rw [block2, roundsG_eq, roundsH_eq, roundsI_eq, ← List.append_assoc,
    show 47 = 16 + 16 + 15 by rfl, roundsFrom_add, roundsFrom_add, h32, h48]

/-- The locals after the rounds `ks`. -/
def shifts (w : Words) (ks : List (Fin 64)) (r : Regs) : Regs :=
  ks.foldl (fun r k => r.shift w k) r

theorem roundsFrom_spec {w : Words} (hw : WordsAt mem base w) (n : Nat) (k : Fin 64) (r : Regs) :
    Triple mem (Before base w k r) (roundsFrom k n)
      (Before base w ((· + 1)^[n] k) (shifts w (List.iterate (· + 1) k n) r)) :=
  Triple.iterate (roundAt_spec hw) n k r

theorem lastAt_spec {w : Words} (r : Regs) :
    Triple mem (Before base w 63 r) ((lastI 63).map (Instr.rename (seat (destOf 63))))
      (Locals (r.shift w 63)) := by
  refine ((lastI_spec 63).rename (seat_injective (destOf 63))).mono (fun _ hg => hg) fun g hg => ?_
  rw [Function.comp_assoc, seat_comp] at hg
  exact ⟨hg.a, hg.b, hg.c, hg.d⟩

/-- What block 1 finds in its operands. -/
structure Start (base : BitVec 64) (r : Regs) (g : File Operand) : Prop extends Locals r g where
  m : g .m = base

theorem preamble_spec {w : Words} (hw : WordsAt mem base w) (r : Regs) :
    Triple mem (Start base r) preamble (Before base w 0 r) := by
  rintro g ⟨⟨ha, hb, hc, hd⟩, hm⟩
  have hx : load mem base = .ok w[MSG[0]] := by
    have := hw 0
    rwa [show BitVec.ofNat 64 (offset 0) = 0#64 by rfl, BitVec.add_zero] at this
  simp [preamble, ha, hd, hm, hx, Except.map, Except.bind]
  constructor <;> simp [seat, slot, show destOf 0 = 0 by rfl, hb, hc, hd, hm]

theorem block1_spec {w : Words} (hw : WordsAt mem base w) (r : Regs) :
    Triple mem (Start base r) block1
      (Before base w 16 (shifts w (List.iterate (· + 1) 0 16) r)) := by
  rw [block1, roundsF_eq]
  exact (preamble_spec hw r).append (roundsFrom_spec hw 16 0 r)

theorem block2_spec {w : Words} (hw : WordsAt mem base w) (r : Regs) :
    Triple mem (Before base w 16 r) block2
      (Locals (shifts w (List.iterate (· + 1) 16 47 ++ [63]) r)) := by
  rw [block2_eq, shifts, List.foldl_append]
  exact (roundsFrom_spec hw 47 16 r).append (lastAt_spec _)

/-! ## The kernel -/

/-- What the compiler chooses for an `asm!` block: distinct registers for its operands, and whatever
else the registers hold. -/
structure Entry where
  reg : Operand → Fin 16
  distinct : Function.Injective reg
  junk : File (Fin 16)

/-- The registers with the pointer `m` and the input operands in them. -/
def Entry.bind (e : Entry) (m : BitVec 64) (ins : List (Operand × U32)) : File (Fin 16) :=
  ins.foldl (fun g i => setLow g (e.reg i.1) i.2) (Function.update e.junk (e.reg .m) m)

/-- Run an `asm!` block and read its operands. -/
def asm (e : Entry) (mem : Memory) (code : Code) (m : BitVec 64) (ins : List (Operand × U32)) :
    Except Fault (Operand → U32) :=
  (X86.run mem (code.map (Instr.rename e.reg)) (e.bind m ins)).map fun g o => low g (e.reg o)

/-- Compress the block at `m`. -/
def transform (e₁ e₂ : Entry) (mem : Memory) (state : State) (m : BitVec 64) :
    Except Fault State := do
  let r := Regs.ofState state
  let out ← asm e₁ mem block1 m [(.a, r.a), (.b, r.b), (.c, r.c), (.d, r.d)]
  let out ← asm e₂ mem block2 m
    [(.a, out .a), (.b, out .b), (.c, out .c), (.d, out .d), (.t1, out .t1)]
  return feedForward state (Regs.toState ⟨out .a, out .b, out .c, out .d⟩)

/-- The block is in memory from `base` on. -/
def Placed (mem : Memory) (base : BitVec 64) (block : Block) : Prop :=
  ∀ i : Fin 64, mem (base + BitVec.ofNat 64 i.val) = some block[i]

theorem load_placed {block : Block} (h : Placed mem base block) (i : Fin 16) :
    load mem (base + BitVec.ofNat 64 (4 * i.val)) = .ok (loadM block)[i] := by
  have hbyte (j : Nat) (hj : j < 4) :
      mem (base + BitVec.ofNat 64 (4 * i.val) + BitVec.ofNat 64 j) = some block[4 * i.val + j] := by
    have := h ⟨4 * i.val + j, by omega⟩
    rwa [BitVec.ofNat_add, ← BitVec.add_assoc] at this
  have h0 := hbyte 0 (by decide)
  rw [BitVec.add_zero] at h0
  have h1 : mem (base + BitVec.ofNat 64 (4 * i.val) + 1) = _ := hbyte 1 (by decide)
  have h2 : mem (base + BitVec.ofNat 64 (4 * i.val) + 2) = _ := hbyte 2 (by decide)
  have h3 : mem (base + BitVec.ofNat 64 (4 * i.val) + 3) = _ := hbyte 3 (by decide)
  rw [load, h0, h1, h2, h3, loadM, getElem_fin, Vector.getElem_ofFn]
  rfl

theorem wordsAt_loadM {block : Block} (h : Placed mem base block) :
    WordsAt mem base (loadM block) := fun k => load_placed h MSG[k]

/-- A block run under its operands is a block run in the registers of an entry. -/
theorem asm_spec {e : Entry} {code : Code} {P Q : File Operand → Prop}
    (h : Triple mem P code Q) {m : BitVec 64} {ins : List (Operand × U32)}
    (hP : P (e.bind m ins ∘ e.reg)) : ∃ g, asm e mem code m ins = .ok (low g) ∧ Q g := by
  obtain ⟨g, hrun, hQ⟩ := h.rename e.distinct (e.bind m ins) hP
  exact ⟨g ∘ e.reg, by rw [asm, hrun]; rfl, hQ⟩

theorem start_bind (e : Entry) (r : Regs) :
    Start base r (e.bind base [(.a, r.a), (.b, r.b), (.c, r.c), (.d, r.d)] ∘ e.reg) := by
  constructor
  constructor
  all_goals simp [Entry.bind, e.distinct.eq_iff]

theorem before_bind (e : Entry) {w : Words} {g : File Operand} (h : Before base w 16 r g) :
    Before base w 16 r (e.bind base [(.a, low g .a), (.b, low g .b), (.c, low g .c),
      (.d, low g .d), (.t1, low g .t1)] ∘ e.reg) := by
  obtain ⟨ha, hb, hc, hd, ht, hm⟩ := h
  constructor
  all_goals simp [Entry.bind, e.distinct.eq_iff, seat, slot, show destOf 16 = 0 by rfl] at *
  all_goals assumption

theorem steps_eq : steps = List.iterate (· + 1) 0 16 ++ (List.iterate (· + 1) 16 47 ++ [63]) := by
  unfold steps; rfl

theorem shifts_steps (w : Words) (s : State) :
    shifts w steps (Regs.ofState s) = Regs.ofState (Md5Simd.run prodMix w s) := by
  have hstep (v : State) (k : Fin 64) : (Regs.ofState v).shift w k =
      Regs.ofState (shiftStep (roundFn prodMix w k) v) := rfl
  have hring := foldl_ringStep (roundFn prodMix w) destOf steps 0 s descends_steps
  rw [destAfter_steps, rotateTo_zero, rotateTo_zero] at hring
  rw [shifts, List.foldl_hom Regs.ofState hstep, Md5Simd.run, hring]

/-- **The kernel is the textbook compressor**: whatever registers the compiler picks for the two
blocks and whatever they hold, wherever the block lies and whatever surrounds it. -/
theorem transform_run (e₁ e₂ : Entry) (state : State) {block : Block} (h : Placed mem base block) :
    transform e₁ e₂ mem state base = .ok (compressTextbook state block) := by
  have hw := wordsAt_loadM h
  obtain ⟨g₁, hrun₁, h₁⟩ := asm_spec (block1_spec hw (Regs.ofState state)) (start_bind e₁ _)
  obtain ⟨g₂, hrun₂, h₂⟩ := asm_spec (block2_spec hw _) (before_bind e₂ h₁)
  have hregs : Locals (Regs.ofState (Md5Simd.run prodMix (loadM block) state)) g₂ := by
    rw [← shifts_steps, steps_eq, shifts, List.foldl_append]
    exact h₂
  have hout : (⟨low g₂ .a, low g₂ .b, low g₂ .c, low g₂ .d⟩ : Regs) =
      Regs.ofState (Md5Simd.run prodMix (loadM block) state) := by
    rw [hregs.a, hregs.b, hregs.c, hregs.d]
  rw [transform, Except.bind_ok hrun₁, Except.bind_ok hrun₂, hout, Regs.toState_ofState,
    ← compress_eq_textbook, compress_eq_run]
  rfl

/-! ## Safety -/

/-- The `out` and `inout` operands of block 1. -/
def outs1 : List Operand := [.a, .b, .c, .d, .t1]

/-- The `out` and `inout` operands of block 2. -/
def outs2 : List Operand := outs1 ++ [.t2]

/-- Every instruction writes one of `outs`, and every load is of a word of the block. -/
def Within (outs : List Operand) (code : Code) : Prop :=
  ∀ i ∈ code, i.dst ∈ outs ∧ ∀ p ∈ i.reads, p.1 = .m ∧ p.2 % 4 = 0 ∧ p.2 < 64

instance (outs : List Operand) (code : Code) : Decidable (Within outs code) :=
  inferInstanceAs (Decidable (∀ i ∈ code, _))

theorem within_block1 : Within outs1 block1 := by decide +kernel

theorem within_block2 : Within outs2 block2 := by decide +kernel

/-- The same in the registers of an entry. -/
theorem Within.safe {outs : List Operand} {code : Code} (hcode : Within outs code)
    (hm : .m ∉ outs) (e : Entry) {g : File (Fin 16)} {block : Block}
    (h : Placed mem (g (e.reg .m)) block) :
    ∃ g', X86.run mem (code.map (Instr.rename e.reg)) g = .ok g' ∧
      ∀ r, r ∉ outs.map e.reg → g' r = g r := by
  apply run_safe
  · intro i' hi'
    obtain ⟨i, hi, rfl⟩ := List.mem_map.mp hi'
    rw [dst_rename]
    exact List.mem_map_of_mem (hcode i hi).1
  · intro i' hi' p' hp'
    obtain ⟨i, hi, rfl⟩ := List.mem_map.mp hi'
    rw [reads_rename] at hp'
    obtain ⟨⟨o, off⟩, hp, rfl⟩ := List.mem_map.mp hp'
    obtain ⟨rfl, hmod, hlt⟩ := (hcode i hi).2 _ hp
    have hword := load_placed h ⟨off / 4, by dsimp only at hlt; omega⟩
    rw [show 4 * (off / 4) = off by dsimp only at hmod; omega] at hword
    refine ⟨fun hout => ?_, _, hword⟩
    obtain ⟨o, ho, heq⟩ := List.mem_map.mp hout
    exact hm (e.distinct heq ▸ ho)

/-- **The contract of the two `asm!` blocks.** In whatever registers the compiler puts the operands,
and whatever these and the others hold, a block that finds 64 readable bytes at its pointer runs to
its end without a read outside them and leaves every register that is not one of its outputs, the
pointer among them, as it was. -/
theorem asm_contract (e : Entry) (mem : Memory) (g : File (Fin 16)) (block : Block)
    (h : ∀ i : Fin 64, mem (g (e.reg .m) + BitVec.ofNat 64 i.val) = some block[i]) :
    (∃ g', X86.run mem (block1.map (Instr.rename e.reg)) g = .ok g' ∧
        ∀ r, r ∉ outs1.map e.reg → g' r = g r) ∧
      ∃ g', X86.run mem (block2.map (Instr.rename e.reg)) g = .ok g' ∧
        ∀ r, r ∉ outs2.map e.reg → g' r = g r :=
  ⟨within_block1.safe (by decide) e h, within_block2.safe (by decide) e h⟩

/-- The operands in the first seven registers, zero everywhere else. -/
def firstSeven : Entry where
  reg
    | .a => 0
    | .b => 1
    | .c => 2
    | .d => 3
    | .t1 => 4
    | .t2 => 5
    | .m => 6
  distinct := by
    intro o p
    cases o <;> cases p <;> decide
  junk _ := 0

theorem asm_contract_firstSeven :
    (∃ g', X86.run (fun _ => some 0) (block1.map (Instr.rename firstSeven.reg)) (fun _ => 7) = .ok g' ∧
        ∀ r, r ∉ outs1.map firstSeven.reg → g' r = 7) ∧
      ∃ g', X86.run (fun _ => some 0) (block2.map (Instr.rename firstSeven.reg)) (fun _ => 7) = .ok g' ∧
        ∀ r, r ∉ outs2.map firstSeven.reg → g' r = 7 :=
  asm_contract firstSeven (fun _ => some 0) (fun _ => 7) (Vector.replicate 64 0) (by decide)

end SingleX86

end Md5Simd
