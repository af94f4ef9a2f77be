import Md5Simd.Compress

/-!
# The AArch64 kernel

`simd/single_aarch.rs`: the vendored kernel of AArch64, one statement for each
macro call of the source. It is the production compressor with the terms added in
another order, the message words loaded one by one where they are used, and the
left rotations written as right ones.
-/

namespace Md5Simd

open Lib

namespace SingleAarch

/-- `u32::from_le(m.add(i).read_unaligned())`. -/
def mi (block : Block) (i : Fin 16) : U32 :=
  let byte (j : Fin 4) : U8 := block.get ⟨4 * i.val + j.val, by omega⟩
  fromLeBytes #v[byte 0, byte 1, byte 2, byte 3]

/-- `ror v, v, #(32 - r)`. -/
def ror (x : U32) (r : Nat) : U32 := x.rotateRight (32 - r)

/-- The two statements of a macro; `k` is the index of the constant. -/
def accumulate (mix : U32) (a b m : U32) (k : Fin 64) (r : Nat) : U32 :=
  ror (a + mix + m + K[k]) r + b

def f (a b c d m : U32) (k : Fin 64) (r : Nat) : U32 :=
  accumulate (d ^^^ (b &&& (c ^^^ d))) a b m k r

def g (a b c d m : U32) (k : Fin 64) (r : Nat) : U32 :=
  accumulate ((~~~d &&& c) + (d &&& b)) a b m k r

def h (a b c d m : U32) (k : Fin 64) (r : Nat) : U32 := accumulate (b ^^^ c ^^^ d) a b m k r

def i (a b c d m : U32) (k : Fin 64) (r : Nat) : U32 := accumulate (c ^^^ (b ||| ~~~d)) a b m k r

variable (block : Block)

def bodyF : List (Regs → Regs) :=
  [ fun x => { x with a := f x.a x.b x.c x.d (mi block 0) 0 7 },
    fun x => { x with d := f x.d x.a x.b x.c (mi block 1) 1 12 },
    fun x => { x with c := f x.c x.d x.a x.b (mi block 2) 2 17 },
    fun x => { x with b := f x.b x.c x.d x.a (mi block 3) 3 22 },
    fun x => { x with a := f x.a x.b x.c x.d (mi block 4) 4 7 },
    fun x => { x with d := f x.d x.a x.b x.c (mi block 5) 5 12 },
    fun x => { x with c := f x.c x.d x.a x.b (mi block 6) 6 17 },
    fun x => { x with b := f x.b x.c x.d x.a (mi block 7) 7 22 },
    fun x => { x with a := f x.a x.b x.c x.d (mi block 8) 8 7 },
    fun x => { x with d := f x.d x.a x.b x.c (mi block 9) 9 12 },
    fun x => { x with c := f x.c x.d x.a x.b (mi block 10) 10 17 },
    fun x => { x with b := f x.b x.c x.d x.a (mi block 11) 11 22 },
    fun x => { x with a := f x.a x.b x.c x.d (mi block 12) 12 7 },
    fun x => { x with d := f x.d x.a x.b x.c (mi block 13) 13 12 },
    fun x => { x with c := f x.c x.d x.a x.b (mi block 14) 14 17 },
    fun x => { x with b := f x.b x.c x.d x.a (mi block 15) 15 22 } ]

def bodyG : List (Regs → Regs) :=
  [ fun x => { x with a := g x.a x.b x.c x.d (mi block 1) 16 5 },
    fun x => { x with d := g x.d x.a x.b x.c (mi block 6) 17 9 },
    fun x => { x with c := g x.c x.d x.a x.b (mi block 11) 18 14 },
    fun x => { x with b := g x.b x.c x.d x.a (mi block 0) 19 20 },
    fun x => { x with a := g x.a x.b x.c x.d (mi block 5) 20 5 },
    fun x => { x with d := g x.d x.a x.b x.c (mi block 10) 21 9 },
    fun x => { x with c := g x.c x.d x.a x.b (mi block 15) 22 14 },
    fun x => { x with b := g x.b x.c x.d x.a (mi block 4) 23 20 },
    fun x => { x with a := g x.a x.b x.c x.d (mi block 9) 24 5 },
    fun x => { x with d := g x.d x.a x.b x.c (mi block 14) 25 9 },
    fun x => { x with c := g x.c x.d x.a x.b (mi block 3) 26 14 },
    fun x => { x with b := g x.b x.c x.d x.a (mi block 8) 27 20 },
    fun x => { x with a := g x.a x.b x.c x.d (mi block 13) 28 5 },
    fun x => { x with d := g x.d x.a x.b x.c (mi block 2) 29 9 },
    fun x => { x with c := g x.c x.d x.a x.b (mi block 7) 30 14 },
    fun x => { x with b := g x.b x.c x.d x.a (mi block 12) 31 20 } ]

def bodyH : List (Regs → Regs) :=
  [ fun x => { x with a := h x.a x.b x.c x.d (mi block 5) 32 4 },
    fun x => { x with d := h x.d x.a x.b x.c (mi block 8) 33 11 },
    fun x => { x with c := h x.c x.d x.a x.b (mi block 11) 34 16 },
    fun x => { x with b := h x.b x.c x.d x.a (mi block 14) 35 23 },
    fun x => { x with a := h x.a x.b x.c x.d (mi block 1) 36 4 },
    fun x => { x with d := h x.d x.a x.b x.c (mi block 4) 37 11 },
    fun x => { x with c := h x.c x.d x.a x.b (mi block 7) 38 16 },
    fun x => { x with b := h x.b x.c x.d x.a (mi block 10) 39 23 },
    fun x => { x with a := h x.a x.b x.c x.d (mi block 13) 40 4 },
    fun x => { x with d := h x.d x.a x.b x.c (mi block 0) 41 11 },
    fun x => { x with c := h x.c x.d x.a x.b (mi block 3) 42 16 },
    fun x => { x with b := h x.b x.c x.d x.a (mi block 6) 43 23 },
    fun x => { x with a := h x.a x.b x.c x.d (mi block 9) 44 4 },
    fun x => { x with d := h x.d x.a x.b x.c (mi block 12) 45 11 },
    fun x => { x with c := h x.c x.d x.a x.b (mi block 15) 46 16 },
    fun x => { x with b := h x.b x.c x.d x.a (mi block 2) 47 23 } ]

def bodyI : List (Regs → Regs) :=
  [ fun x => { x with a := i x.a x.b x.c x.d (mi block 0) 48 6 },
    fun x => { x with d := i x.d x.a x.b x.c (mi block 7) 49 10 },
    fun x => { x with c := i x.c x.d x.a x.b (mi block 14) 50 15 },
    fun x => { x with b := i x.b x.c x.d x.a (mi block 5) 51 21 },
    fun x => { x with a := i x.a x.b x.c x.d (mi block 12) 52 6 },
    fun x => { x with d := i x.d x.a x.b x.c (mi block 3) 53 10 },
    fun x => { x with c := i x.c x.d x.a x.b (mi block 10) 54 15 },
    fun x => { x with b := i x.b x.c x.d x.a (mi block 1) 55 21 },
    fun x => { x with a := i x.a x.b x.c x.d (mi block 8) 56 6 },
    fun x => { x with d := i x.d x.a x.b x.c (mi block 15) 57 10 },
    fun x => { x with c := i x.c x.d x.a x.b (mi block 6) 58 15 },
    fun x => { x with b := i x.b x.c x.d x.a (mi block 13) 59 21 },
    fun x => { x with a := i x.a x.b x.c x.d (mi block 4) 60 6 },
    fun x => { x with d := i x.d x.a x.b x.c (mi block 11) 61 10 },
    fun x => { x with c := i x.c x.d x.a x.b (mi block 2) 62 15 },
    fun x => { x with b := i x.b x.c x.d x.a (mi block 9) 63 21 } ]

/-- Compress one block. -/
def transform (state : State) (block : Block) : State :=
  runBody state (bodyF block ++ bodyG block ++ bodyH block ++ bodyI block)

/-! ## The kernel is the production compressor -/

/-- The macro of a step. -/
def macroOf (k : Fin 64) : U32 → U32 → U32 → U32 → U32 → Fin 64 → Nat → U32 :=
  match k.val / 16 with
  | 0 => f
  | 1 => g
  | 2 => h
  | _ => i

/-- The macro call of a step, as a statement on the locals. -/
def lineAt (k : Fin 64) (r : Regs) : Regs :=
  Regs.ofState (ringStep (fun a b c d => macroOf k a b c d (mi block MSG[k]) k S[k]) (destOf k)
    r.toState)

theorem body_lines :
    bodyF block ++ bodyG block ++ bodyH block ++ bodyI block = steps.map (lineAt block) := by
  unfold steps; rfl

/-- A left rotation is a right rotation by the rest of the word. -/
theorem ror_eq (x : U32) {r : Nat} (h0 : 0 < r) (h : r < 32) : ror x r = x.rotateLeft r := by
  rw [ror, BitVec.rotateRight_def, BitVec.rotateLeft_def, Nat.mod_eq_of_lt h,
    Nat.mod_eq_of_lt (show 32 - r < 32 by omega), show 32 - (32 - r) = r by omega, BitVec.or_comm]

theorem S_range : ∀ k : Fin 64, 0 < S[k] ∧ S[k] < 32 := by decide

theorem mi_eq (i : Fin 16) : mi block i = (loadM block)[i] := by
  rw [loadM, getElem_fin, Vector.getElem_ofFn]; rfl

/-- The statements of a macro add what `step!` adds. -/
theorem accumulate_eq (w : Words) (mix a b : U32) (k : Fin 64) :
    accumulate mix a b w[MSG[k]] k S[k] = stepVal w mix a b k := by
  rw [accumulate, ror_eq _ (S_range k).1 (S_range k).2, stepVal, BitVec.add_comm,
    add_right_comm (a + mix)]

theorem macroOf_eq (k : Fin 64) (a b c d : U32) :
    macroOf k a b c d (mi block MSG[k]) k S[k] = roundFn prodMix (loadM block) k a b c d := by
  unfold macroOf roundFn prodMix byRound
  rw [mi_eq]
  rcases round_cases k with hk | hk | hk | hk <;> simp only [hk]
  · exact accumulate_eq _ _ a b k
  · rw [g, accumulate_eq, mixG, BitVec.and_comm (~~~d), BitVec.and_comm d, BitVec.add_comm]
  · exact accumulate_eq _ _ a b k
  · exact accumulate_eq _ _ a b k

theorem transform_eq (state : State) : transform state block = compressTextbook state block := by
  have hline : lineAt block = lineOf prodMix (loadM block) := by
    funext k r
    simp only [lineAt, lineOf, macroOf_eq]
  rw [transform, body_lines, hline, runBody_lines, ← compress_eq_run, compress_eq_textbook]

end SingleAarch

end Md5Simd
