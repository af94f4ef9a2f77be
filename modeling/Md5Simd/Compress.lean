import Md5Simd.Lib.Place
import Md5Simd.Consts

/-!
# Scalar compression

`compress.rs`: the production compressor `compress`, the textbook oracle
`compressTextbook`, and `stepDest`, the table-driven step of the pair path. The
unrolled bodies are lists of statements on the locals `a`, `b`, `c`, `d`, one
entry for each `step!` line of the source.

Each is brought to one form, `feedForward s (run mix m s)`: 64 steps of the
register ring (`Lib.ringStep`) that differ only in the Boolean functions they
mix with. The identities `mixF_eq` and `mixG_eq` then make them equal.
-/

namespace Md5Simd

open Lib

/-- Sixteen little-endian message words from a block. -/
def loadM (block : Block) : Words := Vector.ofFn fun i =>
  fromLeBytes #v[block[4 * i.val], block[4 * i.val + 1], block[4 * i.val + 2], block[4 * i.val + 3]]

def mixF (x y z : U32) : U32 := z ^^^ (x &&& (y ^^^ z))

def mixG (x y z : U32) : U32 := (x &&& z) + (y &&& ~~~z)

def mixH (x y z : U32) : U32 := x ^^^ y ^^^ z

def mixI (x y z : U32) : U32 := y ^^^ (x ||| ~~~z)

/-- One step on `v`, the destination and the operands taken from the tables. -/
def stepDest (v : State) (m : Words) (step : Fin 64) : State :=
  let dest := destOf step
  let x := v[dest + 1]
  let y := v[dest + 2]
  let z := v[dest + 3]
  let mix := match step.val / 16 with
    | 0 => mixF x y z
    | 1 => mixG x y z
    | 2 => mixH x y z
    | _ => mixI x y z
  put v dest (x + (v[dest] + mix + K[step] + m[MSG[step]]).rotateLeft S[step])

/-- The locals of an unrolled body. -/
structure Regs where
  a : U32
  b : U32
  c : U32
  d : U32

def Regs.ofState (s : State) : Regs := uncurry4 Regs.mk s

def Regs.toState (r : Regs) : State := #v[r.a, r.b, r.c, r.d]

theorem Regs.toState_ofState (s : State) : (Regs.ofState s).toState = s := (vec4_eta s).symm

/-- The value `step!` assigns to its first register. -/
def stepVal (m : Words) (mix a b : U32) (k : Fin 64) : U32 :=
  b + (a + mix + K[k] + m[MSG[k]]).rotateLeft S[k]

def feedForward (s v : State) : State := Vector.zipWith (· + ·) s v

/-- Run an unrolled body on a state and add the state it started from. -/
def runBody (state : State) (body : List (Regs → Regs)) : State :=
  feedForward state (body.foldl (fun r line => line r) (Regs.ofState state)).toState

/-! ## The production compressor -/

/-- Round 1 of `compress`. -/
def compressF (m : Words) : List (Regs → Regs) :=
  [ fun r => { r with a := stepVal m (r.d ^^^ (r.b &&& (r.c ^^^ r.d))) r.a r.b 0 },
    fun r => { r with d := stepVal m (r.c ^^^ (r.a &&& (r.b ^^^ r.c))) r.d r.a 1 },
    fun r => { r with c := stepVal m (r.b ^^^ (r.d &&& (r.a ^^^ r.b))) r.c r.d 2 },
    fun r => { r with b := stepVal m (r.a ^^^ (r.c &&& (r.d ^^^ r.a))) r.b r.c 3 },
    fun r => { r with a := stepVal m (r.d ^^^ (r.b &&& (r.c ^^^ r.d))) r.a r.b 4 },
    fun r => { r with d := stepVal m (r.c ^^^ (r.a &&& (r.b ^^^ r.c))) r.d r.a 5 },
    fun r => { r with c := stepVal m (r.b ^^^ (r.d &&& (r.a ^^^ r.b))) r.c r.d 6 },
    fun r => { r with b := stepVal m (r.a ^^^ (r.c &&& (r.d ^^^ r.a))) r.b r.c 7 },
    fun r => { r with a := stepVal m (r.d ^^^ (r.b &&& (r.c ^^^ r.d))) r.a r.b 8 },
    fun r => { r with d := stepVal m (r.c ^^^ (r.a &&& (r.b ^^^ r.c))) r.d r.a 9 },
    fun r => { r with c := stepVal m (r.b ^^^ (r.d &&& (r.a ^^^ r.b))) r.c r.d 10 },
    fun r => { r with b := stepVal m (r.a ^^^ (r.c &&& (r.d ^^^ r.a))) r.b r.c 11 },
    fun r => { r with a := stepVal m (r.d ^^^ (r.b &&& (r.c ^^^ r.d))) r.a r.b 12 },
    fun r => { r with d := stepVal m (r.c ^^^ (r.a &&& (r.b ^^^ r.c))) r.d r.a 13 },
    fun r => { r with c := stepVal m (r.b ^^^ (r.d &&& (r.a ^^^ r.b))) r.c r.d 14 },
    fun r => { r with b := stepVal m (r.a ^^^ (r.c &&& (r.d ^^^ r.a))) r.b r.c 15 } ]

/-- Round 2 of `compress`: `(x & z) + (y & !z)` on the operand order of each step. -/
def compressG (m : Words) : List (Regs → Regs) :=
  [ fun r => { r with a := stepVal m ((r.b &&& r.d) + (r.c &&& ~~~r.d)) r.a r.b 16 },
    fun r => { r with d := stepVal m ((r.a &&& r.c) + (r.b &&& ~~~r.c)) r.d r.a 17 },
    fun r => { r with c := stepVal m ((r.d &&& r.b) + (r.a &&& ~~~r.b)) r.c r.d 18 },
    fun r => { r with b := stepVal m ((r.c &&& r.a) + (r.d &&& ~~~r.a)) r.b r.c 19 },
    fun r => { r with a := stepVal m ((r.b &&& r.d) + (r.c &&& ~~~r.d)) r.a r.b 20 },
    fun r => { r with d := stepVal m ((r.a &&& r.c) + (r.b &&& ~~~r.c)) r.d r.a 21 },
    fun r => { r with c := stepVal m ((r.d &&& r.b) + (r.a &&& ~~~r.b)) r.c r.d 22 },
    fun r => { r with b := stepVal m ((r.c &&& r.a) + (r.d &&& ~~~r.a)) r.b r.c 23 },
    fun r => { r with a := stepVal m ((r.b &&& r.d) + (r.c &&& ~~~r.d)) r.a r.b 24 },
    fun r => { r with d := stepVal m ((r.a &&& r.c) + (r.b &&& ~~~r.c)) r.d r.a 25 },
    fun r => { r with c := stepVal m ((r.d &&& r.b) + (r.a &&& ~~~r.b)) r.c r.d 26 },
    fun r => { r with b := stepVal m ((r.c &&& r.a) + (r.d &&& ~~~r.a)) r.b r.c 27 },
    fun r => { r with a := stepVal m ((r.b &&& r.d) + (r.c &&& ~~~r.d)) r.a r.b 28 },
    fun r => { r with d := stepVal m ((r.a &&& r.c) + (r.b &&& ~~~r.c)) r.d r.a 29 },
    fun r => { r with c := stepVal m ((r.d &&& r.b) + (r.a &&& ~~~r.b)) r.c r.d 30 },
    fun r => { r with b := stepVal m ((r.c &&& r.a) + (r.d &&& ~~~r.a)) r.b r.c 31 } ]

/-- Round 3 of `compress`. -/
def compressH (m : Words) : List (Regs → Regs) :=
  [ fun r => { r with a := stepVal m (r.b ^^^ r.c ^^^ r.d) r.a r.b 32 },
    fun r => { r with d := stepVal m (r.a ^^^ r.b ^^^ r.c) r.d r.a 33 },
    fun r => { r with c := stepVal m (r.d ^^^ r.a ^^^ r.b) r.c r.d 34 },
    fun r => { r with b := stepVal m (r.c ^^^ r.d ^^^ r.a) r.b r.c 35 },
    fun r => { r with a := stepVal m (r.b ^^^ r.c ^^^ r.d) r.a r.b 36 },
    fun r => { r with d := stepVal m (r.a ^^^ r.b ^^^ r.c) r.d r.a 37 },
    fun r => { r with c := stepVal m (r.d ^^^ r.a ^^^ r.b) r.c r.d 38 },
    fun r => { r with b := stepVal m (r.c ^^^ r.d ^^^ r.a) r.b r.c 39 },
    fun r => { r with a := stepVal m (r.b ^^^ r.c ^^^ r.d) r.a r.b 40 },
    fun r => { r with d := stepVal m (r.a ^^^ r.b ^^^ r.c) r.d r.a 41 },
    fun r => { r with c := stepVal m (r.d ^^^ r.a ^^^ r.b) r.c r.d 42 },
    fun r => { r with b := stepVal m (r.c ^^^ r.d ^^^ r.a) r.b r.c 43 },
    fun r => { r with a := stepVal m (r.b ^^^ r.c ^^^ r.d) r.a r.b 44 },
    fun r => { r with d := stepVal m (r.a ^^^ r.b ^^^ r.c) r.d r.a 45 },
    fun r => { r with c := stepVal m (r.d ^^^ r.a ^^^ r.b) r.c r.d 46 },
    fun r => { r with b := stepVal m (r.c ^^^ r.d ^^^ r.a) r.b r.c 47 } ]

/-- Round 4 of `compress`. -/
def compressI (m : Words) : List (Regs → Regs) :=
  [ fun r => { r with a := stepVal m (r.c ^^^ (r.b ||| ~~~r.d)) r.a r.b 48 },
    fun r => { r with d := stepVal m (r.b ^^^ (r.a ||| ~~~r.c)) r.d r.a 49 },
    fun r => { r with c := stepVal m (r.a ^^^ (r.d ||| ~~~r.b)) r.c r.d 50 },
    fun r => { r with b := stepVal m (r.d ^^^ (r.c ||| ~~~r.a)) r.b r.c 51 },
    fun r => { r with a := stepVal m (r.c ^^^ (r.b ||| ~~~r.d)) r.a r.b 52 },
    fun r => { r with d := stepVal m (r.b ^^^ (r.a ||| ~~~r.c)) r.d r.a 53 },
    fun r => { r with c := stepVal m (r.a ^^^ (r.d ||| ~~~r.b)) r.c r.d 54 },
    fun r => { r with b := stepVal m (r.d ^^^ (r.c ||| ~~~r.a)) r.b r.c 55 },
    fun r => { r with a := stepVal m (r.c ^^^ (r.b ||| ~~~r.d)) r.a r.b 56 },
    fun r => { r with d := stepVal m (r.b ^^^ (r.a ||| ~~~r.c)) r.d r.a 57 },
    fun r => { r with c := stepVal m (r.a ^^^ (r.d ||| ~~~r.b)) r.c r.d 58 },
    fun r => { r with b := stepVal m (r.d ^^^ (r.c ||| ~~~r.a)) r.b r.c 59 },
    fun r => { r with a := stepVal m (r.c ^^^ (r.b ||| ~~~r.d)) r.a r.b 60 },
    fun r => { r with d := stepVal m (r.b ^^^ (r.a ||| ~~~r.c)) r.d r.a 61 },
    fun r => { r with c := stepVal m (r.a ^^^ (r.d ||| ~~~r.b)) r.c r.d 62 },
    fun r => { r with b := stepVal m (r.d ^^^ (r.c ||| ~~~r.a)) r.b r.c 63 } ]

/-- The production compressor. -/
def compress (state : State) (block : Block) : State :=
  let m := loadM block
  runBody state (compressF m ++ compressG m ++ compressH m ++ compressI m)

/-! ## The textbook oracle -/

namespace Textbook

def f (x y z : U32) : U32 := (x &&& y) ||| (~~~x &&& z)

def g (x y z : U32) : U32 := (x &&& z) ||| (y &&& ~~~z)

def h (x y z : U32) : U32 := x ^^^ y ^^^ z

def i (x y z : U32) : U32 := y ^^^ (x ||| ~~~z)

def bodyF (m : Words) : List (Regs → Regs) :=
  [ fun r => { r with a := stepVal m (f r.b r.c r.d) r.a r.b 0 },
    fun r => { r with d := stepVal m (f r.a r.b r.c) r.d r.a 1 },
    fun r => { r with c := stepVal m (f r.d r.a r.b) r.c r.d 2 },
    fun r => { r with b := stepVal m (f r.c r.d r.a) r.b r.c 3 },
    fun r => { r with a := stepVal m (f r.b r.c r.d) r.a r.b 4 },
    fun r => { r with d := stepVal m (f r.a r.b r.c) r.d r.a 5 },
    fun r => { r with c := stepVal m (f r.d r.a r.b) r.c r.d 6 },
    fun r => { r with b := stepVal m (f r.c r.d r.a) r.b r.c 7 },
    fun r => { r with a := stepVal m (f r.b r.c r.d) r.a r.b 8 },
    fun r => { r with d := stepVal m (f r.a r.b r.c) r.d r.a 9 },
    fun r => { r with c := stepVal m (f r.d r.a r.b) r.c r.d 10 },
    fun r => { r with b := stepVal m (f r.c r.d r.a) r.b r.c 11 },
    fun r => { r with a := stepVal m (f r.b r.c r.d) r.a r.b 12 },
    fun r => { r with d := stepVal m (f r.a r.b r.c) r.d r.a 13 },
    fun r => { r with c := stepVal m (f r.d r.a r.b) r.c r.d 14 },
    fun r => { r with b := stepVal m (f r.c r.d r.a) r.b r.c 15 } ]

def bodyG (m : Words) : List (Regs → Regs) :=
  [ fun r => { r with a := stepVal m (g r.b r.c r.d) r.a r.b 16 },
    fun r => { r with d := stepVal m (g r.a r.b r.c) r.d r.a 17 },
    fun r => { r with c := stepVal m (g r.d r.a r.b) r.c r.d 18 },
    fun r => { r with b := stepVal m (g r.c r.d r.a) r.b r.c 19 },
    fun r => { r with a := stepVal m (g r.b r.c r.d) r.a r.b 20 },
    fun r => { r with d := stepVal m (g r.a r.b r.c) r.d r.a 21 },
    fun r => { r with c := stepVal m (g r.d r.a r.b) r.c r.d 22 },
    fun r => { r with b := stepVal m (g r.c r.d r.a) r.b r.c 23 },
    fun r => { r with a := stepVal m (g r.b r.c r.d) r.a r.b 24 },
    fun r => { r with d := stepVal m (g r.a r.b r.c) r.d r.a 25 },
    fun r => { r with c := stepVal m (g r.d r.a r.b) r.c r.d 26 },
    fun r => { r with b := stepVal m (g r.c r.d r.a) r.b r.c 27 },
    fun r => { r with a := stepVal m (g r.b r.c r.d) r.a r.b 28 },
    fun r => { r with d := stepVal m (g r.a r.b r.c) r.d r.a 29 },
    fun r => { r with c := stepVal m (g r.d r.a r.b) r.c r.d 30 },
    fun r => { r with b := stepVal m (g r.c r.d r.a) r.b r.c 31 } ]

def bodyH (m : Words) : List (Regs → Regs) :=
  [ fun r => { r with a := stepVal m (h r.b r.c r.d) r.a r.b 32 },
    fun r => { r with d := stepVal m (h r.a r.b r.c) r.d r.a 33 },
    fun r => { r with c := stepVal m (h r.d r.a r.b) r.c r.d 34 },
    fun r => { r with b := stepVal m (h r.c r.d r.a) r.b r.c 35 },
    fun r => { r with a := stepVal m (h r.b r.c r.d) r.a r.b 36 },
    fun r => { r with d := stepVal m (h r.a r.b r.c) r.d r.a 37 },
    fun r => { r with c := stepVal m (h r.d r.a r.b) r.c r.d 38 },
    fun r => { r with b := stepVal m (h r.c r.d r.a) r.b r.c 39 },
    fun r => { r with a := stepVal m (h r.b r.c r.d) r.a r.b 40 },
    fun r => { r with d := stepVal m (h r.a r.b r.c) r.d r.a 41 },
    fun r => { r with c := stepVal m (h r.d r.a r.b) r.c r.d 42 },
    fun r => { r with b := stepVal m (h r.c r.d r.a) r.b r.c 43 },
    fun r => { r with a := stepVal m (h r.b r.c r.d) r.a r.b 44 },
    fun r => { r with d := stepVal m (h r.a r.b r.c) r.d r.a 45 },
    fun r => { r with c := stepVal m (h r.d r.a r.b) r.c r.d 46 },
    fun r => { r with b := stepVal m (h r.c r.d r.a) r.b r.c 47 } ]

def bodyI (m : Words) : List (Regs → Regs) :=
  [ fun r => { r with a := stepVal m (i r.b r.c r.d) r.a r.b 48 },
    fun r => { r with d := stepVal m (i r.a r.b r.c) r.d r.a 49 },
    fun r => { r with c := stepVal m (i r.d r.a r.b) r.c r.d 50 },
    fun r => { r with b := stepVal m (i r.c r.d r.a) r.b r.c 51 },
    fun r => { r with a := stepVal m (i r.b r.c r.d) r.a r.b 52 },
    fun r => { r with d := stepVal m (i r.a r.b r.c) r.d r.a 53 },
    fun r => { r with c := stepVal m (i r.d r.a r.b) r.c r.d 54 },
    fun r => { r with b := stepVal m (i r.c r.d r.a) r.b r.c 55 },
    fun r => { r with a := stepVal m (i r.b r.c r.d) r.a r.b 56 },
    fun r => { r with d := stepVal m (i r.a r.b r.c) r.d r.a 57 },
    fun r => { r with c := stepVal m (i r.d r.a r.b) r.c r.d 58 },
    fun r => { r with b := stepVal m (i r.c r.d r.a) r.b r.c 59 },
    fun r => { r with a := stepVal m (i r.b r.c r.d) r.a r.b 60 },
    fun r => { r with d := stepVal m (i r.a r.b r.c) r.d r.a 61 },
    fun r => { r with c := stepVal m (i r.d r.a r.b) r.c r.d 62 },
    fun r => { r with b := stepVal m (i r.c r.d r.a) r.b r.c 63 } ]

end Textbook

/-- The textbook oracle. -/
def compressTextbook (state : State) (block : Block) : State :=
  let m := loadM block
  runBody state (Textbook.bodyF m ++ Textbook.bodyG m ++ Textbook.bodyH m ++ Textbook.bodyI m)

/-! ## Blocks and bytes -/

/-- `assert_eq!(data.len() % 64, 0, …)` fails on `len` bytes. -/
def partialBlock (len : Nat) : Fault :=
  .panic (assertEqText (len % 64) 0 (some "input must contain complete MD5 blocks"))

/-- Compress complete blocks into the state; a partial block panics before any is compressed. -/
def compressBlocksWith (compress : State → Block → State) (data : Bytes) :
    EStateM Fault State Unit := do
  if data.length % 64 = 0 then
    let state ← get
    set ((blocks 64 data).foldl compress state)
  else
    throw (partialBlock data.length)

def stateToBytes (state : State) : Digest :=
  uncurry4 (fun a b c d => toLeBytes a ++ toLeBytes b ++ toLeBytes c ++ toLeBytes d) state

/-- The initialization vector for fresh hashers. -/
def iv : State := stateInit

/-! ## One form for the three step programs -/

/-- A Boolean function for each round of sixteen steps. -/
def byRound (f g h i : U32 → U32 → U32 → U32) (step : Fin 64) : U32 → U32 → U32 → U32 :=
  match step.val / 16 with
  | 0 => f
  | 1 => g
  | 2 => h
  | _ => i

def roundFn (mix : Fin 64 → U32 → U32 → U32 → U32) (m : Words) (k : Fin 64) (a b c d : U32) : U32 :=
  stepVal m (mix k b c d) a b k

/-- The 64 steps in place. -/
def run (mix : Fin 64 → U32 → U32 → U32 → U32) (m : Words) (s : State) : State :=
  steps.foldl (fun v k => ringStep (roundFn mix m k) (destOf k) v) s

def prodMix : Fin 64 → U32 → U32 → U32 → U32 := byRound mixF mixG mixH mixI

def bookMix : Fin 64 → U32 → U32 → U32 → U32 :=
  byRound Textbook.f Textbook.g Textbook.h Textbook.i

/-- A step of the ring as a statement on the locals. -/
def lineOf (mix : Fin 64 → U32 → U32 → U32 → U32) (m : Words) (k : Fin 64) (r : Regs) : Regs :=
  Regs.ofState (ringStep (roundFn mix m k) (destOf k) r.toState)

theorem foldl_lineOf (mix : Fin 64 → U32 → U32 → U32 → U32) (m : Words) (ks : List (Fin 64))
    (s : State) :
    (ks.map (lineOf mix m)).foldl (fun r line => line r) (Regs.ofState s) =
      Regs.ofState (ks.foldl (fun v k => ringStep (roundFn mix m k) (destOf k) v) s) := by
  induction ks generalizing s with
  | nil => rfl
  | cons k ks ih =>
    rw [List.map_cons, List.foldl_cons, List.foldl_cons, ← ih, lineOf, Regs.toState_ofState]

/-- A body that ends at the registers of `v` computes `feedForward s v`. -/
theorem runBody_of {s v : State} {body : List (Regs → Regs)}
    (h : body.foldl (fun r line => line r) (Regs.ofState s) = Regs.ofState v) :
    runBody s body = feedForward s v := by
  rw [runBody, h, Regs.toState_ofState]

/-- A body whose lines are the 64 steps computes `feedForward s (run mix m s)`. -/
theorem runBody_lines (mix : Fin 64 → U32 → U32 → U32 → U32) (m : Words) (s : State) :
    runBody s (steps.map (lineOf mix m)) = feedForward s (run mix m s) :=
  runBody_of (foldl_lineOf mix m steps s)

theorem compress_lines (m : Words) :
    compressF m ++ compressG m ++ compressH m ++ compressI m = steps.map (lineOf prodMix m) := by
  unfold steps; rfl

theorem textbook_lines (m : Words) :
    Textbook.bodyF m ++ Textbook.bodyG m ++ Textbook.bodyH m ++ Textbook.bodyI m =
      steps.map (lineOf bookMix m) := by
  unfold steps; rfl

theorem compress_eq_run (s : State) (b : Block) :
    compress s b = feedForward s (run prodMix (loadM b) s) := by
  rw [← runBody_lines, ← compress_lines]; rfl

theorem compressTextbook_eq_run (s : State) (b : Block) :
    compressTextbook s b = feedForward s (run bookMix (loadM b) s) := by
  rw [← runBody_lines, ← textbook_lines]; rfl

theorem round_cases (k : Fin 64) :
    k.val / 16 = 0 ∨ k.val / 16 = 1 ∨ k.val / 16 = 2 ∨ k.val / 16 = 3 := by omega

theorem stepDest_eq_ringStep (v : State) (m : Words) (k : Fin 64) :
    stepDest v m k = ringStep (roundFn prodMix m k) (destOf k) v := by
  simp only [stepDest, ringStep, roundFn, prodMix, byRound, stepVal]
  rcases round_cases k with h | h | h | h <;> simp only [h]

/-! ## The Boolean identities -/

theorem mixF_eq (x y z : U32) : mixF x y z = Textbook.f x y z := by
  refine BitVec.eq_of_getLsbD_eq fun i hi => ?_
  simp only [mixF, Textbook.f, BitVec.getLsbD_xor, BitVec.getLsbD_and, BitVec.getLsbD_or,
    BitVec.getLsbD_not, hi, decide_true, Bool.true_and]
  cases x.getLsbD i <;> cases y.getLsbD i <;> cases z.getLsbD i <;> rfl

/-- The two masks of `mixG` share no bit, so their sum is their union. -/
theorem mixG_eq (x y z : U32) : mixG x y z = Textbook.g x y z := by
  refine BitVec.add_eq_or_of_and_eq_zero _ _ (BitVec.eq_of_getLsbD_eq fun i hi => ?_)
  simp only [BitVec.getLsbD_and, BitVec.getLsbD_not, hi, decide_true, Bool.true_and,
    BitVec.getLsbD_zero]
  cases x.getLsbD i <;> cases y.getLsbD i <;> cases z.getLsbD i <;> rfl

theorem prodMix_eq_bookMix : prodMix = bookMix := by
  funext k x y z
  simp only [prodMix, bookMix, byRound]
  rcases round_cases k with h | h | h | h <;> simp only [h]
  · exact mixF_eq x y z
  · exact mixG_eq x y z
  · rfl
  · rfl

/-- The production compressor is the textbook one. -/
theorem compress_eq_textbook (s : State) (b : Block) : compress s b = compressTextbook s b := by
  rw [compress_eq_run, compressTextbook_eq_run, prodMix_eq_bookMix]

end Md5Simd
